import GrokBuild.WebFetch.Client

/-!
# Web fetch: what is requested

Every request of a fetch goes to the host of the input, over https or to a
local host, right behind a check of the very same URL, and at most
`maxRedirects` redirects are followed. The loop does not validate the target of
a redirect again, so a target with credentials, or a URL that is too long as it
is requested, goes out as it is.
-/

namespace GrokBuild.WebFetch

open TextLines Str List

variable {Url Output : Type} {crate : UrlCrate Url} {allowLocal : Bool}

/-! ## The chain of redirects -/

variable (crate allowLocal) in
/-- The request of a hop is made: its check passes and the client sends it. -/
structure Asked (hop : Hop Url) (u : Url) : Prop where
  check : crate.checkSsrf u allowLocal hop.dns = .ok ()
  sent : ∀ e, hop.reply u ≠ .refused e

variable (crate allowLocal) in
/-- The URL behind some redirects: each answers a request that passed its
check, and leads to the same host. -/
inductive Chain : Url → (Nat → Hop Url) → Nat → Url → Prop
  | here (u hops) : Chain u hops 0 u
  | next {u v w hops n resp} (hcheck : crate.checkSsrf u allowLocal (hops 0).dns = .ok ())
      (hreply : (hops 0).reply u = .answered resp)
      (hstatus : UrlCrate.isRedirection resp.status = true)
      (hfollow : crate.redirect u resp = .follow v)
      (hrest : Chain v (fun n => hops (n + 1)) n w) : Chain u hops (n + 1) w

/-- A turn of the loop: no request, the last request, or a redirect that is
followed. -/
inductive Turn (crate : UrlCrate Url) (max : Nat) (allowLocal : Bool) (left : Nat) (current : Url)
    (hops : Nat → Hop Url) : Prop
  | stopped (hnot : ¬ Asked crate allowLocal (hops 0) current)
      (hevents : (crate.fetchUrl max allowLocal left current hops).1 =
        [.checked current (hops 0).dns])
  | last (hasked : Asked crate allowLocal (hops 0) current)
      (hend : ∀ resp v, (hops 0).reply current = .answered resp →
        UrlCrate.isRedirection resp.status = true → crate.redirect current resp = .follow v → left = 0)
      (hevents : (crate.fetchUrl max allowLocal left current hops).1 =
        [.checked current (hops 0).dns, .sent current])
  | follow (hasked : Asked crate allowLocal (hops 0) current) {more resp v}
      (hleft : left = more + 1) (hreply : (hops 0).reply current = .answered resp)
      (hstatus : UrlCrate.isRedirection resp.status = true)
      (hfollow : crate.redirect current resp = .follow v)
      (hevents : (crate.fetchUrl max allowLocal left current hops).1 =
        [.checked current (hops 0).dns, .sent current] ++
          .followed v :: (crate.fetchUrl max allowLocal more v fun n => hops (n + 1)).1)

theorem turn (max left : Nat) (current : Url) (hops : Nat → Hop Url) :
    Turn crate max allowLocal left current hops := by
  cases hcheck : crate.checkSsrf current allowLocal (hops 0).dns with
  | error e =>
    refine .stopped (fun h => ?_) ?_
    · rw [h.check] at hcheck
      cases hcheck
    · rw [UrlCrate.fetchUrl.eq_def]
      simp only [hcheck]
  | ok =>
    cases hreply : (hops 0).reply current with
    | refused e =>
      refine .stopped (fun h => h.sent e hreply) ?_
      rw [UrlCrate.fetchUrl.eq_def]
      simp only [hcheck, hreply]
    | failed e =>
      refine .last ⟨hcheck, by simp [hreply]⟩ (by simp [hreply]) ?_
      rw [UrlCrate.fetchUrl.eq_def]
      simp only [hcheck, hreply]
    | answered resp =>
      have hasked : Asked crate allowLocal (hops 0) current := ⟨hcheck, by simp [hreply]⟩
      cases hstatus : UrlCrate.isRedirection resp.status with
      | false =>
        refine .last hasked (fun r v hr hs => ?_) ?_
        · obtain rfl := Reply.answered.inj (hreply.symm.trans hr)
          rw [hstatus] at hs
          cases hs
        · rw [UrlCrate.fetchUrl.eq_def]
          simp only [hcheck, hreply, hstatus]
          rfl
      | true =>
        cases left with
        | zero =>
          refine .last hasked (fun _ _ _ _ _ => rfl) ?_
          rw [UrlCrate.fetchUrl.eq_def]
          simp only [hcheck, hreply, hstatus, if_true]
        | succ more =>
          cases hredirect : crate.redirect current resp with
          | follow v =>
            refine .follow hasked rfl hreply hstatus hredirect ?_
            rw [UrlCrate.fetchUrl.eq_def]
            simp only [hcheck, hreply, hstatus, if_true, hredirect]
          | missing | invalid e | crossHost v =>
            refine .last hasked (fun r v hr _ hf => ?_) ?_
            · obtain rfl := Reply.answered.inj (hreply.symm.trans hr)
              rw [hredirect] at hf
              cases hf
            · rw [UrlCrate.fetchUrl.eq_def]
              simp only [hcheck, hreply, hstatus, if_true, hredirect]

variable {current u : Url}

/-- Where a request stands in the events of one turn and those behind it. -/
theorem sent_cases {dns : Resolver} {rest pre post : List (FetchEvent Url)}
    (h : [.checked current dns, .sent current] ++ rest = pre ++ .sent u :: post) :
    (u = current ∧ pre = [.checked current dns]) ∨
      ∃ tail, pre = .checked current dns :: .sent current :: tail ∧
        rest = tail ++ .sent u :: post := by
  match pre with
  | [] => simp at h
  | [e] =>
    simp only [cons_append, nil_append, List.cons.injEq, FetchEvent.sent.injEq] at h
    obtain ⟨rfl, rfl, -⟩ := h
    exact Or.inl ⟨rfl, rfl⟩
  | e :: f :: tail =>
    simp only [cons_append, nil_append, List.cons.injEq] at h
    obtain ⟨rfl, rfl, hrest⟩ := h
    exact Or.inr ⟨tail, rfl, hrest⟩

variable {hops : Nat → Hop Url}

theorem exists_of_sent {max left : Nat} {pre post : List (FetchEvent Url)}
    (h : (crate.fetchUrl max allowLocal left current hops).1 = pre ++ .sent u :: post) :
    ∃ n, n ≤ left ∧ Chain crate allowLocal current hops n u ∧ Asked crate allowLocal (hops n) u ∧
      pre.getLast? = some (.checked u (hops n).dns) := by
  induction left using Nat.strong_induction_on generalizing current hops pre with
  | h left ih =>
    rcases turn max left current hops with ⟨-, hevents⟩ | ⟨hasked, -, hevents⟩ |
      @⟨hasked, more, resp, v, hleft, hreply, hstatus, hfollow, hevents⟩
    · rw [hevents] at h
      rcases cons_eq_append_iff.mp h with ⟨-, hsent⟩ | ⟨tail, -, hsent⟩
      · cases hsent
      · simp at hsent
    · rw [hevents] at h
      rcases sent_cases ((append_nil _).trans h) with ⟨rfl, rfl⟩ | ⟨tail, -, hrest⟩
      · exact ⟨0, Nat.zero_le _, .here _ _, hasked, rfl⟩
      · simp at hrest
    · rw [hevents] at h
      rcases sent_cases h with ⟨rfl, rfl⟩ | ⟨tail, rfl, hrest⟩
      · exact ⟨0, Nat.zero_le _, .here _ _, hasked, rfl⟩
      · rcases cons_eq_append_iff.mp hrest with ⟨-, hsent⟩ | ⟨tail, rfl, hrest⟩
        · cases hsent
        · have hrest : (crate.fetchUrl max allowLocal more v fun n => hops (n + 1)).1 =
              tail ++ .sent u :: post := List.cons.inj hrest |>.2
          obtain ⟨n, hn, hchain, hask, hlast⟩ := ih more (by omega) hrest
          refine ⟨n + 1, by omega, .next hasked.check hreply hstatus hfollow hchain, hask, ?_⟩
          rw [getLast?_cons_cons, getLast?_cons_cons, getLast?_cons, hlast]
          rfl

variable {n : Nat}

theorem sent_of_chain {max left : Nat} (hchain : Chain crate allowLocal current hops n u)
    (hn : n ≤ left) (hasked : Asked crate allowLocal (hops n) u) :
    .sent u ∈ (crate.fetchUrl max allowLocal left current hops).1 := by
  induction hchain generalizing left with
  | here u hops =>
    rcases turn max left u hops with ⟨hnot, -⟩ | ⟨-, -, hevents⟩ |
      @⟨-, more, resp, v, hleft, hreply, hstatus, hfollow, hevents⟩
    · exact absurd hasked hnot
    · rw [hevents]
      simp
    · rw [hevents]
      simp
  | @next u v w hops n resp hcheck hreply hstatus hfollow hrest ih =>
    rcases turn max left u hops with ⟨hnot, -⟩ | ⟨-, hend, -⟩ |
      @⟨-, more, resp', v', hleft, hreply', hstatus', hfollow', hevents⟩
    · exact absurd ⟨hcheck, by simp [hreply]⟩ hnot
    · have hzero := hend resp v hreply hstatus hfollow
      omega
    · obtain rfl := Reply.answered.inj (hreply.symm.trans hreply')
      obtain rfl := UrlCrate.Redirect.follow.inj (hfollow.symm.trans hfollow')
      rw [hevents]
      exact mem_append_right _ (mem_cons_of_mem _ (ih (by omega) hasked))

def FetchEvent.isFollowed : FetchEvent Url → Bool
  | .followed _ => true
  | _ => false

theorem countP_followed_le (max left : Nat) (current : Url) (hops : Nat → Hop Url) :
    (crate.fetchUrl max allowLocal left current hops).1.countP FetchEvent.isFollowed ≤ left := by
  induction left using Nat.strong_induction_on generalizing current hops with
  | h left ih =>
    have hturn : Turn crate max allowLocal left current hops := turn max left current hops
    rcases hturn with ⟨-, hevents⟩ | ⟨-, -, hevents⟩ |
      @⟨-, more, resp, v, hleft, hreply, hstatus, hfollow, hevents⟩
    · rw [hevents]
      exact Nat.zero_le _
    · rw [hevents]
      exact Nat.zero_le _
    · have hmore := ih more (by omega) v fun n => hops (n + 1)
      rw [hevents]
      simp [countP_cons, FetchEvent.isFollowed, hleft, hmore]

/-! ## What the chain keeps -/

variable (crate) in
/-- What the client relies on: a serialized URL parses to itself, and a URL
with the scheme http can be given the scheme https. -/
structure UrlCrate.Lawful : Prop where
  parse_asStr : ∀ url, crate.parse (crate.asStr url) = .ok url
  setScheme_https : ∀ url, crate.scheme url = "http".toList →
    ∃ v, crate.setScheme url "https".toList = some v ∧ crate.scheme v = "https".toList ∧
      crate.hostStr v = crate.hostStr url

variable (crate) in
/-- The HTTP client sends nothing for other schemes. -/
def RefusesOthers (hops : Nat → Hop Url) : Prop :=
  ∀ n u, crate.scheme u ≠ "http".toList → crate.scheme u ≠ "https".toList →
    ∃ e, (hops n).reply u = .refused e

variable (crate) in
/-- Plain http only goes to local hosts. -/
def Secure (u : Url) : Prop :=
  crate.scheme u = "http".toList → (crate.hostStr u).any isExplicitLocalHost = true

theorem hostStr_upgradeToHttps (h : crate.Lawful) (u : Url) :
    crate.hostStr (crate.upgradeToHttps u) = crate.hostStr u := by
  unfold UrlCrate.upgradeToHttps
  split
  · rfl
  · next hscheme =>
    split
    · rfl
    · obtain ⟨v, hv, -, hhost⟩ := h.setScheme_https u (not_not.mp hscheme)
      rw [hv]
      exact hhost

theorem secure_upgradeToHttps (h : crate.Lawful) (u : Url) : Secure crate (crate.upgradeToHttps u) := by
  unfold UrlCrate.upgradeToHttps
  split
  · next hscheme => exact fun hhttp => absurd hhttp hscheme
  · next hscheme =>
    split
    · next hlocal => exact fun _ => hlocal
    · obtain ⟨v, hv, hhttps, -⟩ := h.setScheme_https u (not_not.mp hscheme)
      rw [hv]
      intro hhttp
      exact absurd (hhttps.symm.trans hhttp) (by decide)

/-- The target of a redirect that is followed has the host of the request, and
is upgraded. -/
theorem exists_of_follow {v : Url} {resp : Response} (h : crate.redirect current resp = .follow v) :
    ∃ next, crate.hostStr current = crate.hostStr next ∧ v = crate.upgradeToHttps next := by
  unfold UrlCrate.redirect at h
  split at h
  · cases h
  · split at h
    · cases h
    · next next _ =>
      split at h
      · next hsame =>
        exact ⟨next, by simpa [UrlCrate.isSameHost] using hsame, (UrlCrate.Redirect.follow.inj h).symm⟩
      · cases h

theorem Chain.hostStr (hlaw : crate.Lawful) {w : Url} (h : Chain crate allowLocal u hops n w) :
    crate.hostStr w = crate.hostStr u := by
  induction h with
  | here => rfl
  | next hcheck hreply hstatus hfollow hrest ih =>
    obtain ⟨next, hhost, rfl⟩ := exists_of_follow hfollow
    rw [ih, hostStr_upgradeToHttps hlaw, hhost]

theorem Chain.secure (hlaw : crate.Lawful) {w : Url} (hu : Secure crate u)
    (h : Chain crate allowLocal u hops n w) : Secure crate w := by
  induction h with
  | here => exact hu
  | next hcheck hreply hstatus hfollow hrest ih =>
    obtain ⟨next, -, rfl⟩ := exists_of_follow hfollow
    exact ih (secure_upgradeToHttps hlaw next)

/-! ## Validation and the check -/

variable (crate) in
/-- No credentials, and within the length limit as it is requested. -/
structure Plain (u : Url) : Prop where
  username : crate.username u = []
  password : crate.password u = none
  length : byteLen (crate.asStr u) ≤ maxUrlLength

variable (crate) in
/-- What is left of `validate_url` behind the length, the parse and the
credentials. -/
structure Named (u : Url) : Prop where
  scheme : crate.scheme u = "http".toList ∨ crate.scheme u = "https".toList
  labels : ∀ host, crate.hostStr u = some host →
    2 ≤ (host.splitOn '.').length ∨ isExplicitLocalHost host = true

theorem validateUrl_eq_ok {raw : Text} :
    crate.validateUrl raw = .ok u ↔ byteLen raw ≤ maxUrlLength ∧ crate.parse raw = .ok u ∧
      crate.username u = [] ∧ crate.password u = none ∧ Named crate u := by
  unfold UrlCrate.validateUrl
  constructor
  · intro h
    split at h
    · cases h
    · next hlength =>
      split at h
      · cases h
      · next parsed hparse =>
        split at h
        · cases h
        · next hscheme =>
          split at h
          · cases h
          · next hcredentials =>
            rw [not_or, not_not, Option.isSome_iff_ne_none, not_not] at hcredentials
            have hscheme' : crate.scheme parsed = "http".toList ∨ crate.scheme parsed = "https".toList := by
              tauto
            split at h
            · next hhost =>
              obtain rfl := Except.ok.inj h
              refine ⟨not_lt.mp hlength, hparse, hcredentials.1, hcredentials.2, hscheme', ?_⟩
              simp [hhost]
            · next host hhost =>
              split at h
              · cases h
              · next hlabels =>
                obtain rfl := Except.ok.inj h
                refine ⟨not_lt.mp hlength, hparse, hcredentials.1, hcredentials.2, hscheme', ?_⟩
                intro host' hhost'
                obtain rfl := Option.some.inj (hhost.symm.trans hhost')
                rw [not_and_or, not_lt, Bool.not_eq_true', Bool.not_eq_false] at hlabels
                exact hlabels
  · rintro ⟨hlength, hparse, husername, hpassword, hnamed⟩
    have hscheme : ¬ (crate.scheme u ≠ "http".toList ∧ crate.scheme u ≠ "https".toList) := by
      have hs := hnamed.scheme
      tauto
    rw [if_neg (not_lt.mpr hlength), hparse]
    simp only [if_neg hscheme, husername, hpassword, ne_eq, not_true_eq_false, Option.isSome_none,
      Bool.false_eq_true, or_self, if_false]
    split
    · rfl
    · next host hhost =>
      refine if_neg ?_
      rw [not_and_or, not_lt, Bool.not_eq_true', Bool.not_eq_false]
      exact hnamed.labels host hhost

/-- Every address that the check saw is public. -/
def AllPublic (crate : UrlCrate Url) (u : Url) (dns : Resolver) : Prop :=
  ∃ host, crate.hostStr u = some host ∧
    match parseIpAddr host with
    | some ip => isNonPublicIp ip = false
    | none => ∃ addrs, dns (host ++ ':' :: decimal ((crate.portOrKnownDefault u).getD 443)) = .ok addrs ∧
      ∀ ip ∈ addrs, isNonPublicIp ip = false

theorem allPublic_of_checkSsrf {dns : Resolver} (h : crate.checkSsrf u false dns = .ok ()) :
    AllPublic crate u dns := by
  unfold UrlCrate.checkSsrf at h
  split at h
  · cases h
  · next host hhost =>
    refine ⟨host, hhost, ?_⟩
    cases haddr : parseIpAddr host with
    | some ip =>
      rw [haddr] at h
      dsimp only at h ⊢
      split at h
      · cases h
      · next hpublic =>
        rw [isBlockedForHost_off, Bool.not_eq_true] at hpublic
        exact hpublic
    | none =>
      rw [haddr] at h
      dsimp only at h ⊢
      split at h
      · cases h
      · next addrs haddrs =>
        split at h
        · cases h
        · split at h
          · cases h
          · next hnone =>
            refine ⟨addrs, haddrs, fun ip hip => ?_⟩
            have hpublic := find?_eq_none.mp hnone ip hip
            rwa [isBlockedForHost_off, Bool.not_eq_true] at hpublic

/-! ## Whole fetches -/

/-- A request of a fetch whose input validates to `first`, behind the events
`past`. -/
structure RequestChecked (crate : UrlCrate Url) (allowLocal : Bool) (first : Url)
    (past : List (FetchEvent Url)) (u : Url) : Prop where
  host : crate.hostStr u = crate.hostStr first
  accepted : crate.validateUrl (crate.asStr u) = .ok u
  secure : crate.scheme u = "https".toList ∨ (crate.hostStr u).any isExplicitLocalHost = true
  checked : ∃ dns, past.getLast? = some (.checked u dns) ∧
    crate.checkSsrf u allowLocal dns = .ok () ∧ (allowLocal = false → AllPublic crate u dns)

/-- Every request of a fetch was checked, and not too many redirects were
followed. -/
structure FetchChecked (crate : UrlCrate Url) (params : WebFetchParams) (world : World Url Output)
    (rawUrl : Text) : Prop where
  requests : ∀ first, crate.validateUrl rawUrl = .ok first → ∀ past u rest,
    (fetch crate params world rawUrl).1 = past ++ .sent u :: rest →
      RequestChecked crate params.allowLocal first past u
  redirects : (fetch crate params world rawUrl).1.countP FetchEvent.isFollowed ≤ maxRedirects

/-- The loop of a fetch begins: the answer is not cached, the first check
passes, and there is a client. -/
structure Begins (crate : UrlCrate Url) (params : WebFetchParams) (world : World Url Output)
    (url : Url) : Prop where
  uncached : world.cache (crate.asStr url) = none
  check : crate.checkSsrf url params.allowLocal world.dns = .ok ()
  client : world.client = .ok ()

/-- The URLs that are requested of an input, by its redirects, are plain. -/
def PlainChain (crate : UrlCrate Url) (params : WebFetchParams) (world : World Url Output)
    (rawUrl : Text) : Prop :=
  ∀ first, crate.validateUrl rawUrl = .ok first →
    Begins crate params world (crate.upgradeToHttps first) → ∀ n u, n ≤ maxRedirects →
      Chain crate params.allowLocal (crate.upgradeToHttps first) world.hops n u →
        Asked crate params.allowLocal (world.hops n) u → Plain crate u

theorem fetch_events {params : WebFetchParams} {world : World Url Output} {rawUrl : Text}
    {first : Url} (hfirst : crate.validateUrl rawUrl = .ok first) :
    (Begins crate params world (crate.upgradeToHttps first) ∧
      (fetch crate params world rawUrl).1 = .checked (crate.upgradeToHttps first) world.dns ::
        (crate.fetchUrl params.maxContentLength params.allowLocal maxRedirects
          (crate.upgradeToHttps first) world.hops).1) ∨
    (¬ Begins crate params world (crate.upgradeToHttps first) ∧
      ∀ e ∈ (fetch crate params world rawUrl).1, ∃ u dns, e = .checked u dns) := by
  unfold fetch
  rw [hfirst]
  dsimp only
  cases hcache : world.cache (crate.asStr (crate.upgradeToHttps first)) with
  | some cached =>
    refine Or.inr ⟨fun h => ?_, by simp⟩
    rw [h.uncached] at hcache
    cases hcache
  | none =>
    cases hcheck : crate.checkSsrf (crate.upgradeToHttps first) params.allowLocal world.dns with
    | error e =>
      refine Or.inr ⟨fun h => ?_, by simp⟩
      rw [h.check] at hcheck
      cases hcheck
    | ok =>
      cases hclient : world.client with
      | error e =>
        refine Or.inr ⟨fun h => ?_, by simp⟩
        rw [h.client] at hclient
        cases hclient
      | ok => exact Or.inl ⟨⟨hcache, hcheck, hclient⟩, rfl⟩

theorem requestChecked_of_chain (hlaw : crate.Lawful) (hclient : RefusesOthers crate hops)
    {rawUrl : Text} {first : Url} (hfirst : crate.validateUrl rawUrl = .ok first)
    (hchain : Chain crate allowLocal (crate.upgradeToHttps first) hops n u)
    (hasked : Asked crate allowLocal (hops n) u) (hplain : Plain crate u)
    {past : List (FetchEvent Url)} (hpast : past.getLast? = some (.checked u (hops n).dns)) :
    RequestChecked crate allowLocal first past u := by
  have hhost : crate.hostStr u = crate.hostStr first :=
    (hchain.hostStr hlaw).trans (hostStr_upgradeToHttps hlaw first)
  have hnamed := (validateUrl_eq_ok.mp hfirst).2.2.2.2
  have hscheme : crate.scheme u = "http".toList ∨ crate.scheme u = "https".toList := by
    by_contra hother
    rw [not_or] at hother
    obtain ⟨e, he⟩ := hclient n u hother.1 hother.2
    exact hasked.sent e he
  refine ⟨hhost, ?_, ?_, (hops n).dns, hpast, hasked.check, ?_⟩
  · refine validateUrl_eq_ok.mpr ⟨hplain.length, hlaw.parse_asStr u, hplain.username,
      hplain.password, hscheme, fun host h => hnamed.labels host ?_⟩
    rw [← hhost]
    exact h
  · rcases hscheme with hhttp | hhttps
    · exact Or.inr (hchain.secure hlaw (secure_upgradeToHttps hlaw first) hhttp)
    · exact Or.inl hhttps
  · rintro rfl
    exact allPublic_of_checkSsrf hasked.check

/-- Every request is checked exactly when the URLs that are requested have no
credentials and are not too long. -/
theorem fetch_checked_iff (hlaw : crate.Lawful) {params : WebFetchParams}
    {world : World Url Output} (hclient : RefusesOthers crate world.hops) (rawUrl : Text) :
    FetchChecked crate params world rawUrl ↔ PlainChain crate params world rawUrl := by
  constructor
  · intro h first hfirst hbegins n u hn hchain hasked
    have hsent : .sent u ∈ (fetch crate params world rawUrl).1 := by
      rcases fetch_events hfirst with ⟨-, hevents⟩ | ⟨hnot, -⟩
      · rw [hevents]
        exact mem_cons_of_mem _ (sent_of_chain hchain hn hasked)
      · exact absurd hbegins hnot
    obtain ⟨past, rest, hsplit⟩ := append_of_mem hsent
    have hchecked := h.requests first hfirst past u rest hsplit
    obtain ⟨hlength, -, husername, hpassword, -⟩ := validateUrl_eq_ok.mp hchecked.accepted
    exact ⟨husername, hpassword, hlength⟩
  · intro h
    refine ⟨fun first hfirst past u rest hsplit => ?_, ?_⟩
    · rcases fetch_events hfirst with ⟨hbegins, hevents⟩ | ⟨-, hevents⟩
      · rw [hevents] at hsplit
        rcases cons_eq_append_iff.mp hsplit with ⟨-, hsent⟩ | ⟨past', rfl, hloop⟩
        · cases hsent
        · obtain ⟨n, hn, hchain, hasked, hlast⟩ := exists_of_sent hloop
          have hplain := h first hfirst hbegins n u hn hchain hasked
          refine requestChecked_of_chain hlaw hclient hfirst hchain hasked hplain ?_
          rw [getLast?_cons, hlast]
          rfl
      · obtain ⟨v, dns, hv⟩ := hevents (.sent u) (by rw [hsplit]; simp)
        cases hv
    · cases hfirst : crate.validateUrl rawUrl with
      | error e =>
        have hnone : (fetch crate params world rawUrl).1 = [] := by
          unfold fetch
          rw [hfirst]
        rw [hnone]
        exact Nat.zero_le _
      | ok first =>
        have hcases : _ ∨ ¬ Begins crate params world _ ∧ _ := fetch_events hfirst
        rcases hcases with ⟨-, hevents⟩ | ⟨-, hevents⟩
        · rw [hevents, countP_cons]
          exact countP_followed_le _ _ _ _
        · refine (countP_eq_zero.mpr fun e he => ?_).trans_le (Nat.zero_le _)
          obtain ⟨v, dns, rfl⟩ := hevents e he
          exact Bool.false_ne_true

/-! ## A redirect with credentials -/

/-- `https://example.com/`, and the same page with credentials. -/
inductive Page where
  | plain
  | withCredentials
  deriving DecidableEq

def Page.asStr : Page → Text
  | .plain => "https://example.com/".toList
  | .withCredentials => "https://user:pw@example.com/".toList

def Page.parse (s : Text) : Except Text Page :=
  if s = Page.plain.asStr then .ok .plain
  else if s = Page.withCredentials.asStr then .ok .withCredentials
  else .error "relative URL without a base".toList

/-- The `url` crate on these pages. -/
def pageCrate : UrlCrate Page where
  parse := Page.parse
  asStr := Page.asStr
  scheme _ := "https".toList
  username
    | .plain => []
    | .withCredentials => "user".toList
  password
    | .plain => none
    | .withCredentials => some "pw".toList
  hostStr _ := some "example.com".toList
  portOrKnownDefault _ := some 443
  setScheme _ _ := none
  join _ := Page.parse

theorem pageCrate_lawful : pageCrate.Lawful where
  parse_asStr url := by cases url <;> rfl
  setScheme_https _ h := absurd h (by simp [pageCrate])

/-- The plain page redirects to the one with credentials. -/
def redirectWorld : World Page Unit where
  cache _ := none
  dns _ := .ok [.v4 (.new 93 184 216 34)]
  client := .ok ()
  hops _ :=
    { dns := fun _ => .ok [.v4 (.new 93 184 216 34)]
      reply := fun
        | .plain => .answered ⟨302, some (some (Page.asStr .withCredentials)), none,
            Page.asStr .plain, .ok []⟩
        | .withCredentials => .answered ⟨200, none, none, Page.asStr .withCredentials, .ok []⟩ }

theorem redirectWorld_refuses : RefusesOthers pageCrate redirectWorld.hops :=
  fun _ _ _ h => absurd rfl h

/-- A redirect to a URL with credentials is followed and requested. -/
theorem redirect_with_credentials_requested :
    ¬ FetchChecked pageCrate ⟨1000, false⟩ redirectWorld "https://example.com/".toList := by
  intro h
  have hfirst : pageCrate.validateUrl "https://example.com/".toList = .ok .plain := by
    rw [validateUrl_eq_ok]
    exact ⟨by decide, rfl, rfl, rfl, Or.inr rfl, fun _ hhost => Or.inl (by
      obtain rfl := Option.some.inj hhost
      decide)⟩
  have hevents : (fetch pageCrate ⟨1000, false⟩ redirectWorld "https://example.com/".toList).1 =
      [.checked .plain redirectWorld.dns, .checked .plain redirectWorld.dns, .sent .plain,
        .followed .withCredentials, .checked .withCredentials redirectWorld.dns] ++
        [.sent .withCredentials] := by
    rfl
  have haccepted := (h.requests .plain hfirst _ .withCredentials [] hevents).accepted
  exact absurd (validateUrl_eq_ok.mp haccepted).2.2.1 (by decide)

theorem fetch_checked_iff_redirectWorld :
    FetchChecked pageCrate ⟨1000, false⟩ redirectWorld "https://example.com/".toList ↔
      PlainChain pageCrate ⟨1000, false⟩ redirectWorld "https://example.com/".toList :=
  fetch_checked_iff pageCrate_lawful redirectWorld_refuses _

end GrokBuild.WebFetch
