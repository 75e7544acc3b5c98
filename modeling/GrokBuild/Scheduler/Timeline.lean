import GrokBuild.Scheduler.Clock

/-!
# The scheduler: the timeline

What the scheduler has sent to its notification handle, beside the clock.
Every transition that a reservation is made for has a number, in the order of
the reservations; the code has no such number, only the statements about it
read it.
-/

namespace GrokBuild.Scheduler

open TextLines List

/-- `ScheduledTaskCreated`, `ScheduledTaskFired` and `ScheduledTaskRemoved`,
less the version. The times are not rendered. -/
inductive Notification
  | created (taskId prompt humanSchedule : Text) (nextFireAt : DateTime)
  | fired (taskId prompt humanSchedule : Text) (nextFireAt : Option DateTime)
      (subagentId : Option Text)
  | removed (taskId : Text)
  deriving DecidableEq

structure Notice where
  notification : Notification
  version : SchedulerVersion
  /-- The transition that it tells of; a re-announcement tells of none. -/
  transition : Option Nat
  deriving DecidableEq

/-- A reservation, and the number of its next transition. -/
structure Reserved where
  reservation : SchedulerReservation
  transition : Nat
  deriving DecidableEq

structure Timeline where
  clock : SchedulerClock
  notices : List Notice
  begun : Nat
  committed : List Nat
  deriving DecidableEq

namespace Timeline

def prepare (tl : Timeline) (count : Nat) (newGeneration : Uuid) : Option (Reserved × Timeline) :=
  do
    let reservation ← tl.clock.prepareTransition count newGeneration
    some (⟨reservation, tl.begun⟩, { tl with begun := tl.begun + count })

def send (tl : Timeline) (notification : Notification) (version : SchedulerVersion)
    (transition : Option Nat) : Timeline :=
  { tl with notices := tl.notices ++ [⟨notification, version, transition⟩] }

/-- `send_scheduled_task_created`, of a task that is there already. -/
def reannounce (tl : Timeline) (notification : Notification) : Timeline :=
  tl.send notification tl.clock.version none

/-- The sending half of `publish_durable_removal`. -/
def publish (tl : Timeline) (r : Reserved) (notification : Notification) : Option Timeline := do
  let version ← r.reservation.versionAt 0
  some (tl.send notification version (some r.transition))

def commit (tl : Timeline) (r : Reserved) : Option (SchedulerVersion × Reserved × Timeline) := do
  let (commit, reservation, clock) ← r.reservation.commitNext tl.clock
  some (commit.version, ⟨reservation, r.transition + 1⟩,
    { tl with clock, committed := tl.committed ++ [r.transition] })

def commitAndSend (tl : Timeline) (r : Reserved) (notification : Notification) :
    Option (Reserved × Timeline) := do
  let (version, rest, tl) ← tl.commit r
  some (rest, tl.send notification version (some r.transition))

/-! ## The order -/

/-- No transition with that number was ever committed. -/
def Uncommitted (tl : Timeline) (n : Notice) : Prop :=
  ∃ k, n.transition = some k ∧ k ∉ tl.committed

/-- What a notice has to do with a later one. -/
structure InOrder (abandoned : Nat → Prop) (n m : Notice) : Prop where
  same : ∀ k, n.transition = some k → m.transition = some k → n = m
  other : ∀ j k, n.transition = some j → m.transition = some k → j ≠ k →
    Precedes n.version m.version ∨ n.version = m.version ∧ abandoned j
  renewed : n.transition = none → ∀ k, m.transition = some k → Precedes n.version m.version
  current : m.transition = none → (∀ k, n.transition = some k → ¬ abandoned k) →
    n.version = m.version ∨ Precedes n.version m.version

theorem InOrder.mono {abandoned abandoned' : Nat → Prop} {n m : Notice}
    (h : InOrder abandoned n m) (heq : ∀ k, n.transition = some k → (abandoned k ↔ abandoned' k)) :
    InOrder abandoned' n m where
  same := h.same
  other j k hj hk hne := (h.other j k hj hk hne).imp_right fun ⟨hv, ha⟩ => ⟨hv, (heq j hj).mp ha⟩
  renewed := h.renewed
  current hm hn := h.current hm fun k hk ha => hn k hk ((heq k hk).mp ha)

/-- The version of the last notice of a committed transition, which is where
the clock stands; before the first one, where it began. -/
def lastVersion (initial : SchedulerVersion) (committed : List Nat) (notices : List Notice) :
    SchedulerVersion :=
  ((notices.filter (·.transition.any (· ∈ committed))).getLast?.map (·.version)).getD initial

/-- Different transitions have different versions, growing in a generation;
only a tombstone whose transition was never committed may have its version
used again. A re-announcement has the version that the clock stands at. -/
structure Ordered (initial : SchedulerVersion) (tl : Timeline) : Prop where
  ordered : tl.notices.Pairwise (InOrder (· ∉ tl.committed))
  tombstone : ∀ n ∈ tl.notices, tl.Uncommitted n → ∃ taskId, n.notification = .removed taskId
  current : ∀ past n, past ++ [n] <+: tl.notices → n.transition = none →
    n.version = lastVersion initial tl.committed past

/-! ## What the operations keep -/

/-- A reservation in use, and what was told of its next transition. -/
structure Hold where
  reserved : Reserved
  told : Option Notification

namespace Hold

def reservation (h : Hold) : SchedulerReservation := h.reserved.reservation

def transition (h : Hold) : Nat := h.reserved.transition

/-- The notice of the transition in use. -/
def IsNotice (h : Hold) (n : Notice) : Prop :=
  ∃ notification, h.told = some notification ∧
    n = ⟨notification, h.reservation.next, some h.transition⟩

end Hold

/-- The transition was not committed, and will not be. -/
def Abandoned (tl : Timeline) (hold : Option Hold) (k : Nat) : Prop :=
  k ∉ tl.committed ∧ ∀ h ∈ hold, k < h.transition

def AtMost (v w : SchedulerVersion) : Prop :=
  v.generation = w.generation → v.revision.toNat ≤ w.revision.toNat

def AtMostNext (v w : SchedulerVersion) : Prop :=
  v.generation = w.generation → v.revision.toNat ≤ w.revision.toNat + 1

structure Kept (initial : SchedulerVersion) (seen : List Uuid) (hold : Option Hold)
    (tl : Timeline) : Prop where
  clock_seen : tl.clock.version.generation ∈ seen
  notices_seen : ∀ n ∈ tl.notices, n.version.generation ∈ seen
  hold_seen : ∀ h ∈ hold, h.reservation.generation ∈ seen
  fits : ∀ h ∈ hold, h.reservation.Fits tl.clock
  rolled : ∀ h ∈ hold, h.reservation.rollover ≠ none → ∀ n ∈ tl.notices,
    n.version.generation = h.reservation.generation → h.IsNotice n
  begun : ∀ n ∈ tl.notices, ∀ k, n.transition = some k → k < tl.begun
  begun_hold : ∀ h ∈ hold, h.transition + h.reservation.remaining ≤ tl.begun
  below : ∀ h ∈ hold, ∀ n ∈ tl.notices, ∀ k, n.transition = some k →
    k < h.transition ∨ h.IsNotice n
  told : ∀ h ∈ hold, ∀ notification, h.told = some notification →
    tl.notices.getLast? = some ⟨notification, h.reservation.next, some h.transition⟩
  told_last : tl.notices.Pairwise fun n m => ∀ h ∈ hold, h.IsNotice n → h.IsNotice m
  committed : ∀ k ∈ tl.committed, k < tl.begun
  committed_hold : ∀ h ∈ hold, ∀ k ∈ tl.committed, k < h.transition
  behind : ∀ n ∈ tl.notices, (∀ k, n.transition = some k → k ∈ tl.committed) →
    AtMost n.version tl.clock.version
  ahead : ∀ n ∈ tl.notices, tl.Uncommitted n → AtMostNext n.version tl.clock.version
  tombstone : ∀ n ∈ tl.notices, tl.Uncommitted n →
    (∃ taskId, n.notification = .removed taskId) ∨ ∃ h ∈ hold, h.IsNotice n
  clock_told : tl.clock.version = lastVersion initial tl.committed tl.notices
  current : ∀ past n, past ++ [n] <+: tl.notices → n.transition = none →
    n.version = lastVersion initial tl.committed past
  ordered : tl.notices.Pairwise (InOrder (tl.Abandoned hold))

namespace Kept

variable {initial : SchedulerVersion} {seen : List Uuid} {tl : Timeline} {h : Hold} {n : Notice}

theorem precedes_next (hk : Kept initial seen (some h) tl) (hn : n ∈ tl.notices)
    (hother : ¬ h.IsNotice n) (hold : ∀ k, n.transition = some k → k ∈ tl.committed) :
    Precedes n.version h.reservation.next := by
  intro hgen
  have hfits := hk.fits h rfl
  cases hroll : h.reservation.rollover with
  | some rollover =>
    exact absurd (hk.rolled h rfl (by simp [hroll]) n hn hgen) hother
  | none =>
    obtain ⟨hclock, hrev⟩ := hfits.same hroll
    have := hk.behind n hn hold (hgen.trans hclock)
    show n.version.revision.toNat < h.reservation.nextRevision.toNat
    omega

theorem next_or_precedes (hk : Kept initial seen (some h) tl) (hn : n ∈ tl.notices)
    (hother : ¬ h.IsNotice n) (hopen : tl.Uncommitted n) :
    Precedes n.version h.reservation.next ∨ n.version = h.reservation.next := by
  by_cases hgen : n.version.generation = h.reservation.generation
  · cases hroll : h.reservation.rollover with
    | some rollover => exact absurd (hk.rolled h rfl (by simp [hroll]) n hn hgen) hother
    | none =>
      obtain ⟨hclock, hrev⟩ := (hk.fits h rfl).same hroll
      have hle := hk.ahead n hn hopen (hgen.trans hclock)
      by_cases heq : n.version.revision = h.reservation.nextRevision
      · exact .inr (by cases hv : n.version; simp_all [SchedulerReservation.next])
      · refine .inl fun _ => ?_
        have : n.version.revision.toNat ≠ h.reservation.nextRevision.toNat :=
          fun h => heq (UInt64.toNat_inj.mp h)
        show n.version.revision.toNat < h.reservation.nextRevision.toNat
        omega
  · exact .inl fun h => absurd h hgen

theorem inOrder_next (hk : Kept initial seen (some h) tl) {m : Notice} (hn : n ∈ tl.notices)
    (hversion : m.version = h.reservation.next) (htransition : m.transition = some h.transition)
    (hsame : h.IsNotice n → n = m) : InOrder (tl.Abandoned (some h)) n m where
  same k hnk hmk := by
    obtain rfl : h.transition = k := by simpa [htransition] using hmk
    rcases hk.below h rfl n hn _ hnk with hlt | hnotice
    · exact absurd hlt (Nat.lt_irrefl _)
    · exact hsame hnotice
  other j k hnj hmk hjk := by
    obtain rfl : h.transition = k := by simpa [htransition] using hmk
    have hother : ¬ h.IsNotice n := by
      rintro ⟨notification, -, rfl⟩
      exact hjk (by simpa using hnj.symm)
    rw [hversion]
    by_cases hj : j ∈ tl.committed
    · exact .inl (hk.precedes_next hn hother (by
        intro i hi
        obtain rfl : j = i := by simpa [hnj] using hi
        exact hj))
    · have hlt : j < h.transition := (hk.below h rfl n hn j hnj).resolve_right hother
      rcases hk.next_or_precedes hn hother ⟨j, hnj, hj⟩ with hprec | heq
      · exact .inl hprec
      · exact .inr ⟨heq, hj, by simpa using hlt⟩
  renewed hnone k _ := by
    rw [hversion]
    refine hk.precedes_next hn ?_ (by simp [hnone])
    rintro ⟨notification, -, rfl⟩
    cases hnone
  current hnone := by simp [htransition] at hnone

end Kept

theorem Kept.start (generation : Uuid) :
    Kept (SchedulerClock.new generation).version [generation] none
      ⟨SchedulerClock.new generation, [], 0, []⟩ := by
  constructor <;> simp [SchedulerClock.new, lastVersion]

variable {initial : SchedulerVersion} {seen : List Uuid} {tl : Timeline}

theorem Kept.prepare (hk : Kept initial seen none tl) {newGeneration : Uuid}
    (hfresh : newGeneration ∉ seen) (count : Nat) (hpos : 0 < count)
    (hle : count ≤ maxSchedulerTransitions) :
    ∃ r tl', tl.prepare count newGeneration = some (r, tl') ∧
      r.reservation.remaining = count ∧
      Kept initial (newGeneration :: seen) (some ⟨r, none⟩) tl' := by
  obtain ⟨reservation, hprep, hfits, hremaining, hroll⟩ :=
    prepareTransition_fits tl.clock newGeneration hpos hle
  have hgen : reservation.generation ∈ newGeneration :: seen := by
    cases hr : reservation.rollover with
    | some rollover => simp [hroll (by simp [hr])]
    | none =>
      rw [(hfits.same hr).1]
      exact mem_cons_of_mem _ hk.clock_seen
  refine ⟨⟨reservation, tl.begun⟩, { tl with begun := tl.begun + count },
    by simp [Timeline.prepare, hprep], hremaining, ?_⟩
  exact {
    clock_seen := mem_cons_of_mem _ hk.clock_seen
    notices_seen := fun n hn => mem_cons_of_mem _ (hk.notices_seen n hn)
    hold_seen := by rintro _ ⟨⟩; exact hgen
    fits := by rintro _ ⟨⟩; exact hfits
    rolled := by
      rintro _ ⟨⟩ hr n hn heq
      refine absurd (hk.notices_seen n hn) ?_
      rw [heq]
      show reservation.generation ∉ seen
      rw [hroll hr]
      exact hfresh
    begun := fun n hn k h => Nat.lt_add_right _ (hk.begun n hn k h)
    begun_hold := by rintro _ ⟨⟩; exact Nat.add_le_add_left hremaining.le _
    below := by rintro _ ⟨⟩ n hn k h; exact .inl (hk.begun n hn k h)
    told := by rintro _ ⟨⟩ _ h; cases h
    told_last := by
      refine pairwise_of_forall fun _ _ => ?_
      rintro _ ⟨⟩ ⟨_, htold, -⟩
      cases htold
    committed := fun k h => Nat.lt_add_right _ (hk.committed k h)
    committed_hold := by rintro _ ⟨⟩ k h; exact hk.committed k h
    behind := hk.behind
    ahead := hk.ahead
    tombstone := fun n hn hopen => (hk.tombstone n hn hopen).imp_right (by simp)
    clock_told := hk.clock_told
    current := hk.current
    ordered := by
      refine hk.ordered.imp_of_mem fun {n m} hn _ hnm => hnm.mono fun k hnk => ?_
      have hlt := hk.begun n hn k hnk
      simp [Abandoned, Hold.transition, hlt] }

variable {h : Hold}

theorem Kept.drop (hk : Kept initial seen (some h) tl)
    (htomb : ∀ notification, h.told = some notification → ∃ taskId, notification = .removed taskId) :
    Kept initial seen none tl where
  clock_seen := hk.clock_seen
  notices_seen := hk.notices_seen
  hold_seen := by simp
  fits := by simp
  rolled := by simp
  begun := hk.begun
  begun_hold := by simp
  below := by simp
  told := by simp
  told_last := pairwise_of_forall (by simp)
  committed := hk.committed
  committed_hold := by simp
  behind := hk.behind
  ahead := hk.ahead
  tombstone n hn hopen := by
    rcases hk.tombstone n hn hopen with hid | ⟨_, ⟨⟩, notification, htold, rfl⟩
    · exact .inl hid
    · exact .inl (htomb notification htold)
  clock_told := hk.clock_told
  current := hk.current
  ordered := by
    refine hk.ordered.imp fun hnm =>
      ⟨hnm.same, fun j k hj hk' hne => (hnm.other j k hj hk' hne).imp_right
        fun ⟨hv, hc, _⟩ => ⟨hv, hc, by simp⟩,
      hnm.renewed, fun hm hn => hnm.current hm fun k hk' ha => hn k hk' ⟨ha.1, by simp⟩⟩

theorem forall_mem_snoc {notices : List Notice} {new : Notice} {P : Notice → Prop}
    (hold : ∀ n ∈ notices, P n) (hnew : P new) : ∀ n ∈ notices ++ [new], P n := by
  intro n hn
  rcases mem_append.mp hn with hn | hn
  · exact hold n hn
  · obtain rfl := mem_singleton.mp hn
    exact hnew

theorem forall_prefix_snoc {notices : List Notice} {new : Notice} {P : List Notice → Notice → Prop}
    (hold : ∀ past n, past ++ [n] <+: notices → P past n) (hnew : P notices new) :
    ∀ past n, past ++ [n] <+: notices ++ [new] → P past n := by
  intro past n hpast
  rcases prefix_concat_iff.mp hpast with heq | hpast
  · obtain ⟨rfl, hn⟩ := append_inj' heq rfl
    obtain rfl := (cons.inj hn).1
    exact hnew
  · exact hold past n hpast

section LastVersion

variable {committed committed' : List Nat} {notices : List Notice}

theorem lastVersion_snoc {new : Notice} (h : new.transition.any (· ∈ committed) = false) :
    lastVersion initial committed (notices ++ [new]) = lastVersion initial committed notices := by
  simp [lastVersion, filter_append, h]

theorem lastVersion_of_getLast? {n : Notice} (hlast : notices.getLast? = some n)
    (h : n.transition.any (· ∈ committed) = true) :
    lastVersion initial committed notices = n.version := by
  obtain ⟨past, rfl⟩ := getLast?_eq_some_iff.mp hlast
  simp [lastVersion, filter_append, h]

theorem lastVersion_congr (h : ∀ n ∈ notices, n.transition.any (· ∈ committed) =
    n.transition.any (· ∈ committed')) :
    lastVersion initial committed notices = lastVersion initial committed' notices := by
  rw [lastVersion, lastVersion, filter_congr h]

end LastVersion

theorem Kept.send (hk : Kept initial seen (some h) tl) {notification : Notification}
    (htold : h.told = none ∨ h.told = some notification) :
    Kept initial seen (some { h with told := some notification })
      (tl.send notification h.reservation.next (some h.transition)) := by
  have hagain : ∀ n, h.IsNotice n → n = ⟨notification, h.reservation.next, some h.transition⟩ := by
    rintro n ⟨said, hsaid, rfl⟩
    rcases htold with hnone | hsome
    · simp [hnone] at hsaid
    · obtain rfl : notification = said := by simpa [hsome] using hsaid
      rfl
  have hself : Hold.IsNotice { h with told := some notification }
      ⟨notification, h.reservation.next, some h.transition⟩ := ⟨notification, rfl, rfl⟩
  have hnotice : ∀ n, h.IsNotice n → Hold.IsNotice { h with told := some notification } n := by
    intro n hn
    rw [hagain n hn]
    exact hself
  have hnew : h.transition ∉ tl.committed :=
    fun hc => Nat.lt_irrefl _ (hk.committed_hold h rfl _ hc)
  have hpos := (hk.fits h rfl).remaining
  have hbegun := hk.begun_hold h rfl
  exact {
    clock_seen := hk.clock_seen
    notices_seen := forall_mem_snoc hk.notices_seen (hk.hold_seen h rfl)
    hold_seen := by rintro _ ⟨⟩; exact hk.hold_seen h rfl
    fits := by rintro _ ⟨⟩; exact hk.fits h rfl
    rolled := by
      rintro _ ⟨⟩ hr
      exact forall_mem_snoc (fun n hn hgen => hnotice n (hk.rolled h rfl hr n hn hgen))
        (fun _ => hself)
    begun := by
      refine forall_mem_snoc hk.begun fun k hnk => ?_
      obtain rfl : h.transition = k := by simpa using hnk
      show h.transition < tl.begun
      omega
    begun_hold := by rintro _ ⟨⟩; exact hbegun
    below := by
      rintro _ ⟨⟩
      exact forall_mem_snoc
        (fun n hn k hnk => (hk.below h rfl n hn k hnk).imp_right (hnotice n))
        (fun _ _ => .inr hself)
    told := by
      rintro _ ⟨⟩ said ⟨⟩
      exact getLast?_concat
    told_last := by
      refine pairwise_append.mpr ⟨?_, pairwise_singleton _ _, ?_⟩
      · refine hk.told_last.imp_of_mem fun {n m} hn _ hnm => ?_
        rintro _ ⟨⟩ ⟨said, ⟨⟩, rfl⟩
        refine hnotice m (hnm h rfl ?_)
        exact (hk.below h rfl _ hn _ rfl).resolve_left (Nat.lt_irrefl _)
      · rintro n - m hm _ ⟨⟩ -
        obtain rfl := mem_singleton.mp hm
        exact hself
    committed := hk.committed
    committed_hold := by rintro _ ⟨⟩; exact hk.committed_hold h rfl
    behind := forall_mem_snoc hk.behind fun hc => absurd (hc h.transition rfl) hnew
    ahead := by
      refine forall_mem_snoc hk.ahead fun _ hgen => ?_
      cases hroll : h.reservation.rollover with
      | none => exact ((hk.fits h rfl).same hroll).2.le
      | some rollover =>
        have hone := ((hk.fits h rfl).rolled (by simp [hroll])).2
        show h.reservation.nextRevision.toNat ≤ _
        rw [hone]
        exact Nat.le_add_left _ _
    tombstone := by
      refine forall_mem_snoc (fun n hn hopen => (hk.tombstone n hn hopen).imp_right ?_)
        (fun _ => .inr ⟨_, rfl, hself⟩)
      rintro ⟨_, ⟨⟩, hn⟩
      exact ⟨_, rfl, hnotice n hn⟩
    clock_told := hk.clock_told.trans (lastVersion_snoc (by simpa using hnew)).symm
    current := forall_prefix_snoc hk.current fun h => by cases h
    ordered := by
      have hsame : ∀ k, tl.Abandoned (some h) k ↔
          (tl.send notification h.reservation.next (some h.transition)).Abandoned
            (some { h with told := some notification }) k := by
        simp [Abandoned, Hold.transition, Timeline.send]
      refine pairwise_append.mpr ⟨hk.ordered.imp fun hnm => hnm.mono fun k _ => hsame k,
        pairwise_singleton _ _, ?_⟩
      intro n hn m hm
      obtain rfl := mem_singleton.mp hm
      exact (hk.inOrder_next (m := ⟨_, _, some h.transition⟩) hn rfl rfl (hagain n)).mono
        fun k _ => hsame k }

theorem AtMost.eq_or_precedes {v w : SchedulerVersion} (h : AtMost v w) :
    v = w ∨ Precedes v w := by
  by_cases hgen : v.generation = w.generation
  · rcases Nat.eq_or_lt_of_le (h hgen) with heq | hlt
    · have hrev := UInt64.toNat_inj.mp heq
      cases v
      simp_all
    · exact .inr fun _ => hlt
  · exact .inr fun h => absurd h hgen

theorem Kept.reannounce (hk : Kept initial seen none tl) (notification : Notification) :
    Kept initial seen none (tl.reannounce notification) :=
  { clock_seen := hk.clock_seen
    notices_seen := forall_mem_snoc hk.notices_seen hk.clock_seen
    hold_seen := by simp
    fits := by simp
    rolled := by simp
    begun := forall_mem_snoc hk.begun (fun k h => by cases h)
    begun_hold := by simp
    below := by simp
    told := by simp
    told_last := pairwise_of_forall (by simp)
    committed := hk.committed
    committed_hold := by simp
    behind := forall_mem_snoc hk.behind (fun _ _ => Nat.le_refl _)
    ahead := forall_mem_snoc hk.ahead (fun ⟨k, h, _⟩ => by cases h)
    tombstone := forall_mem_snoc hk.tombstone (fun ⟨k, h, _⟩ => by cases h)
    clock_told := hk.clock_told.trans (lastVersion_snoc rfl).symm
    current := forall_prefix_snoc hk.current fun _ => hk.clock_told
    ordered := by
      refine pairwise_append.mpr ⟨hk.ordered, pairwise_singleton _ _, ?_⟩
      intro n hn m hm
      obtain rfl := mem_singleton.mp hm
      exact {
        same := fun k _ h => by cases h
        other := fun j k _ h => by cases h
        renewed := fun _ k h => by cases h
        current := fun _ hc => (hk.behind n hn fun k hnk =>
          Classical.byContradiction fun h => hc k hnk ⟨h, by simp⟩).eq_or_precedes } }

theorem Kept.commit (hk : Kept initial seen (some h) tl) {notification : Notification}
    (htold : h.told = some notification) :
    ∃ rest tl', tl.commit h.reserved = some (h.reservation.next, rest, tl') ∧
      tl'.notices = tl.notices ∧
      rest.reservation.remaining = h.reservation.remaining - 1 ∧
      Kept initial seen
        (if 0 < rest.reservation.remaining then some ⟨rest, none⟩ else none) tl' := by
  obtain ⟨reservation, hcommit, hremaining, hroll, hfits⟩ :=
    commitNext_fits (hk.fits h rfl)
  have hcommit' : h.reserved.reservation.commitNext tl.clock =
      some (⟨h.reservation.next, h.reservation.rollover⟩, reservation, ⟨h.reservation.next⟩) :=
    hcommit
  refine ⟨⟨reservation, h.transition + 1⟩, ⟨⟨h.reservation.next⟩, tl.notices, tl.begun,
    tl.committed ++ [h.transition]⟩, by simp [Timeline.commit, hcommit']; rfl, rfl, hremaining, ?_⟩
  have hpos := (hk.fits h rfl).remaining
  have hbegun := hk.begun_hold h rfl
  have hlast := hk.told h rfl notification htold
  have hown : ∀ n, h.IsNotice n → n = ⟨notification, h.reservation.next, some h.transition⟩ := by
    rintro n ⟨said, hsaid, rfl⟩
    simp_all
  have hrest : ∀ h' ∈ (if 0 < reservation.remaining then
      some (⟨⟨reservation, h.transition + 1⟩, none⟩ : Hold) else none),
      0 < reservation.remaining ∧ h' = ⟨⟨reservation, h.transition + 1⟩, none⟩ := by
    intro h' hh'
    split at hh'
    · exact ⟨‹_›, by simpa using hh'.symm⟩
    · cases hh'
  exact {
    clock_seen := hk.hold_seen h rfl
    notices_seen := hk.notices_seen
    hold_seen := by
      intro h' hh'
      obtain ⟨hmore, rfl⟩ := hrest h' hh'
      show reservation.generation ∈ seen
      rw [((hfits hmore).same hroll).1]
      exact hk.hold_seen h rfl
    fits := by
      intro h' hh'
      obtain ⟨hmore, rfl⟩ := hrest h' hh'
      exact hfits hmore
    rolled := by
      intro h' hh' hr
      obtain ⟨-, rfl⟩ := hrest h' hh'
      exact absurd hroll hr
    begun := hk.begun
    begun_hold := by
      intro h' hh'
      obtain ⟨-, rfl⟩ := hrest h' hh'
      show h.transition + 1 + reservation.remaining ≤ tl.begun
      omega
    below := by
      intro h' hh' n hn k hnk
      obtain ⟨-, rfl⟩ := hrest h' hh'
      rcases hk.below h rfl n hn k hnk with hlt | hnotice
      · exact .inl (Nat.lt_succ_of_lt hlt)
      · obtain rfl := hown n hnotice
        exact .inl (by simp [Hold.transition] at hnk ⊢; omega)
    told := by
      intro h' hh' said hsaid
      obtain ⟨-, rfl⟩ := hrest h' hh'
      cases hsaid
    told_last := by
      refine pairwise_of_forall fun n m h' hh' hn => ?_
      obtain ⟨-, rfl⟩ := hrest h' hh'
      obtain ⟨_, htold', -⟩ := hn
      cases htold'
    committed := by
      intro k hkc
      rcases mem_append.mp hkc with hkc | hkc
      · exact hk.committed k hkc
      · obtain rfl := mem_singleton.mp hkc
        show h.transition < tl.begun
        omega
    committed_hold := by
      intro h' hh' k hkc
      obtain ⟨-, rfl⟩ := hrest h' hh'
      rcases mem_append.mp hkc with hkc | hkc
      · exact Nat.lt_succ_of_lt (hk.committed_hold h rfl k hkc)
      · obtain rfl := mem_singleton.mp hkc
        exact Nat.lt_succ_self _
    behind := by
      intro n hn hc
      by_cases hnotice : h.IsNotice n
      · obtain rfl := hown n hnotice
        exact fun _ => Nat.le_refl _
      · intro hgen
        refine Nat.le_of_lt (hk.precedes_next hn hnotice (fun k hnk => ?_) hgen)
        rcases mem_append.mp (hc k hnk) with hkc | hkc
        · exact hkc
        · obtain rfl := mem_singleton.mp hkc
          exact absurd ((hk.below h rfl n hn _ hnk).resolve_right hnotice) (Nat.lt_irrefl _)
    ahead := by
      rintro n hn ⟨k, hnk, hopen⟩
      have hother : ¬ h.IsNotice n := by
        intro hnotice
        obtain rfl := hown n hnotice
        exact hopen (by simp [show h.transition = k by simpa using hnk])
      have hopen' : k ∉ tl.committed := fun hc => hopen (mem_append_left _ hc)
      rcases hk.next_or_precedes hn hother ⟨k, hnk, hopen'⟩ with hprec | heq
      · exact fun hgen => Nat.le_succ_of_le (Nat.le_of_lt (hprec hgen))
      · exact fun _ => by rw [heq]; exact Nat.le_succ _
    tombstone := by
      rintro n hn ⟨k, hnk, hopen⟩
      have hopen' : k ∉ tl.committed := fun hc => hopen (mem_append_left _ hc)
      rcases hk.tombstone n hn ⟨k, hnk, hopen'⟩ with hid | ⟨_, ⟨⟩, hnotice⟩
      · exact .inl hid
      · obtain rfl := hown n hnotice
        exact absurd (by simp [show h.transition = k by simpa using hnk]) hopen
    clock_told := (lastVersion_of_getLast? hlast (by simp)).symm
    current := by
      intro past n hpast hnone
      refine (hk.current past n hpast hnone).trans (lastVersion_congr fun m hm => ?_)
      -- no notice of the transition stands in front of a re-announcement
      have hother : m.transition ≠ some h.transition := by
        intro hmt
        have hbehind := (pairwise_append.mp (hk.told_last.sublist hpast.sublist)).2.2 m hm n (by simp)
        have hnotice := (hk.below h rfl m (hpast.subset (by simp [hm])) _ hmt).resolve_left
          (Nat.lt_irrefl _)
        obtain ⟨_, -, rfl⟩ := hbehind h rfl hnotice
        cases hnone
      cases hmt : m.transition with
      | none => rfl
      | some k =>
        have hne : k ≠ h.transition := fun hk' => hother (hmt.trans (congrArg some hk'))
        simp [hne]
    ordered := by
      refine hk.ordered.imp_of_mem fun {n m} hn _ hnm => hnm.mono fun k hnk => ?_
      have hrest' : (∀ h' ∈ (if 0 < reservation.remaining then
          some (⟨⟨reservation, h.transition + 1⟩, none⟩ : Hold) else none),
          k < h'.transition) ∨ h.transition < k := by
        refine (Nat.lt_or_ge h.transition k).symm.imp_left fun hle h' hh' => ?_
        obtain ⟨-, rfl⟩ := hrest h' hh'
        exact Nat.lt_succ_of_le hle
      have hle : k ≤ h.transition := by
        rcases hk.below h rfl n hn k hnk with hlt | hnotice
        · exact Nat.le_of_lt hlt
        · obtain rfl := hown n hnotice
          exact (by simpa using hnk : h.transition = k).ge
      have hlater := hrest'.resolve_right (Nat.not_lt.mpr hle)
      simp only [Abandoned, mem_append, mem_singleton, not_or]
      constructor
      · rintro ⟨hkc, hlt⟩
        exact ⟨⟨hkc, Nat.ne_of_lt (hlt h rfl)⟩, hlater⟩
      · rintro ⟨⟨hkc, hne⟩, -⟩
        refine ⟨hkc, ?_⟩
        rintro _ ⟨⟩
        exact Nat.lt_of_le_of_ne hle hne }

theorem Kept.publish (hk : Kept initial seen (some h) tl) (notification : Notification) :
    tl.publish h.reserved notification =
      some (tl.send notification h.reservation.next (some h.transition)) := by
  have hversion : h.reserved.reservation.versionAt 0 = some h.reservation.next :=
    SchedulerReservation.versionAt_zero (hk.fits h rfl).remaining
  simp [Timeline.publish, hversion, Hold.transition]

theorem commit_send (tl : Timeline) (r : Reserved) (notification : Notification)
    (version : SchedulerVersion) (transition : Option Nat) :
    (tl.send notification version transition).commit r =
      (tl.commit r).map fun (v, rest, tl') => (v, rest, tl'.send notification version transition) := by
  unfold Timeline.commit Timeline.send
  cases r.reservation.commitNext tl.clock <;> rfl

theorem Kept.commitAndSend (hk : Kept initial seen (some h) tl) (notification : Notification)
    (htold : h.told = none ∨ h.told = some notification) :
    ∃ rest tl', tl.commitAndSend h.reserved notification = some (rest, tl') ∧
      rest.reservation.remaining = h.reservation.remaining - 1 ∧
      Kept initial seen
        (if 0 < rest.reservation.remaining then some ⟨rest, none⟩ else none) tl' := by
  obtain ⟨rest, tl', hcommit, -, hremaining, hkept⟩ := (hk.send htold).commit rfl
  refine ⟨rest, tl', ?_, hremaining, hkept⟩
  rw [show Hold.reserved { h with told := some notification } = h.reserved from rfl,
    commit_send] at hcommit
  cases hc : tl.commit h.reserved with
  | none => simp [hc] at hcommit
  | some committed =>
    obtain ⟨version, rest', tl''⟩ := committed
    simp only [hc, Option.map_some, Option.some.injEq, Prod.mk.injEq] at hcommit
    obtain ⟨rfl, rfl, rfl⟩ := hcommit
    simp [Timeline.commitAndSend, hc]
    rfl

/-- What is left of a reservation can be given up. -/
theorem Kept.done {rest : Reserved}
    (hk : Kept initial seen (if 0 < rest.reservation.remaining then some ⟨rest, none⟩ else none) tl) :
    Kept initial seen none tl := by
  split at hk
  · exact hk.drop (by simp)
  · exact hk

theorem Kept.transition (hk : Kept initial seen none tl) {newGeneration : Uuid}
    (hfresh : newGeneration ∉ seen) (notification : Notification) :
    ∃ reserved tl' rest tl'', tl.prepare 1 newGeneration = some (reserved, tl') ∧
      tl'.commitAndSend reserved notification = some (rest, tl'') ∧
      Kept initial (newGeneration :: seen) none tl'' := by
  obtain ⟨reserved, tl', hprep, -, hheld⟩ := hk.prepare hfresh 1 (Nat.le_refl 1) (by decide)
  obtain ⟨rest, tl'', hcommit, -, hdone⟩ := hheld.commitAndSend notification (.inl rfl)
  exact ⟨reserved, tl', rest, tl'', hprep, hcommit, hdone.done⟩

theorem Kept.see {hold : Option Hold} (hk : Kept initial seen hold tl) (generation : Uuid) :
    Kept initial (generation :: seen) hold tl :=
  { hk with
    clock_seen := mem_cons_of_mem _ hk.clock_seen
    notices_seen := fun n hn => mem_cons_of_mem _ (hk.notices_seen n hn)
    hold_seen := fun h hh => mem_cons_of_mem _ (hk.hold_seen h hh) }

theorem Kept.to_ordered (hk : Kept initial seen none tl) : tl.Ordered initial where
  ordered := hk.ordered.imp fun hnm => hnm.mono fun k _ => by simp [Abandoned]
  tombstone n hn hopen := (hk.tombstone n hn hopen).resolve_right (by simp)
  current := hk.current

end Timeline

end GrokBuild.Scheduler
