import GrokBuild.Lib.Lines

/-!
# Shell quoting

Quote removal of the POSIX shell on one word: backslashes, single quotes and
double quotes. `removeQuotes_eq_self` and `removeDouble_eq_self` say when a
spelling is its own value: every quote or escape that is removed makes the
word shorter.
-/

namespace Quoting

open TextLines List

/-- The characters that a backslash escapes between double quotes, the
newline apart. -/
def doubleEscapes : List Char := ['$', '`', '"', '\\']

/-- What stands between double quotes, as the shell reads it. -/
@[grind =]
def removeDouble : Text → Text
  | '\\' :: c :: cs =>
    if c = '\n' then removeDouble cs
    else if c ∈ doubleEscapes then c :: removeDouble cs
    else '\\' :: c :: removeDouble cs
  | c :: cs => c :: removeDouble cs
  | [] => []

/-- Inside which quotes a character stands. -/
inductive Mode where
  | plain
  | single
  | double
  deriving DecidableEq, Repr

/-- Quote removal: the argument that a word of the shell stands for. A
backslash in front of a newline vanishes with it. -/
@[grind =]
def removeQuotes : Mode → Text → Text
  | .plain, '\'' :: cs => removeQuotes .single cs
  | .plain, '"' :: cs => removeQuotes .double cs
  | .plain, '\\' :: c :: cs => if c = '\n' then removeQuotes .plain cs else c :: removeQuotes .plain cs
  | .single, '\'' :: cs => removeQuotes .plain cs
  | .double, '"' :: cs => removeQuotes .plain cs
  | .double, '\\' :: c :: cs =>
    if c = '\n' then removeQuotes .double cs
    else if c ∈ doubleEscapes then c :: removeQuotes .double cs
    else '\\' :: c :: removeQuotes .double cs
  | mode, c :: cs => c :: removeQuotes mode cs
  | _, [] => []

/-- All quotes that are opened are closed, and no backslash is left over. -/
@[grind =]
def closed : Mode → Text → Bool
  | .plain, '\'' :: cs => closed .single cs
  | .plain, '"' :: cs => closed .double cs
  | .plain, '\\' :: cs =>
    match cs with
    | [] => false
    | _ :: cs => closed .plain cs
  | .single, '\'' :: cs => closed .plain cs
  | .double, '"' :: cs => closed .plain cs
  | .double, '\\' :: cs =>
    match cs with
    | [] => false
    | _ :: cs => closed .double cs
  | mode, _ :: cs => closed mode cs
  | mode, [] => mode = .plain

/-- Text that can stand between two double quotes. -/
@[grind =]
def closedDouble : Text → Bool
  | '\\' :: cs =>
    match cs with
    | [] => false
    | _ :: cs => closedDouble cs
  | c :: cs => c ≠ '"' && closedDouble cs
  | [] => true

/-- No character outside the ordinary: neither a quote nor a backslash. -/
def unquoted (s : Text) : Bool := s.all fun c => c ∉ ['\'', '"', '\\']

/-- Between double quotes, every backslash stays. -/
@[grind =]
def keepsBackslashes : Text → Bool
  | '\\' :: c :: cs => c ≠ '\n' && c ∉ doubleEscapes && keepsBackslashes cs
  | _ :: cs => keepsBackslashes cs
  | [] => true

/-! ## One character at a time -/

theorem removeQuotes_openSingle (cs : Text) :
    removeQuotes .plain ('\'' :: cs) = removeQuotes .single cs := rfl

theorem removeQuotes_openDouble (cs : Text) :
    removeQuotes .plain ('"' :: cs) = removeQuotes .double cs := rfl

theorem removeQuotes_escape (c : Char) (cs : Text) :
    removeQuotes .plain ('\\' :: c :: cs) =
      if c = '\n' then removeQuotes .plain cs else c :: removeQuotes .plain cs := rfl

theorem removeQuotes_escapeDouble (c : Char) (cs : Text) :
    removeQuotes .double ('\\' :: c :: cs) =
      if c = '\n' then removeQuotes .double cs
      else if c ∈ doubleEscapes then c :: removeQuotes .double cs
      else '\\' :: c :: removeQuotes .double cs := rfl

variable {c : Char}

theorem removeQuotes_ordinary (hsingle : c ≠ '\'') (hdouble : c ≠ '"') (hescape : c ≠ '\\')
    (mode : Mode) (cs : Text) : removeQuotes mode (c :: cs) = c :: removeQuotes mode cs := by
  cases mode with
  | plain => rw [removeQuotes] <;> simp_all
  | single => rw [removeQuotes] <;> simp_all
  | double => rw [removeQuotes] <;> simp_all

theorem removeQuotes_inSingle (hsingle : c ≠ '\'') (cs : Text) :
    removeQuotes .single (c :: cs) = c :: removeQuotes .single cs := by
  rw [removeQuotes] <;> simp_all

theorem removeQuotes_inDouble (hdouble : c ≠ '"') (hescape : c ≠ '\\') (cs : Text) :
    removeQuotes .double (c :: cs) = c :: removeQuotes .double cs := by
  rw [removeQuotes] <;> simp_all

theorem removeDouble_escape (c : Char) (cs : Text) :
    removeDouble ('\\' :: c :: cs) =
      if c = '\n' then removeDouble cs
      else if c ∈ doubleEscapes then c :: removeDouble cs
      else '\\' :: c :: removeDouble cs := rfl

/-! ## Removal never adds anything -/

theorem length_removeDouble_le (s : Text) : (removeDouble s).length ≤ s.length := by
  fun_induction removeDouble s <;> simp only [length_cons, length_nil] <;> omega

theorem length_removeQuotes_le (mode : Mode) (s : Text) :
    (removeQuotes mode s).length ≤ s.length := by
  fun_induction removeQuotes mode s <;> simp only [length_cons, length_nil] <;> omega

/-! ## Spellings that are their own value -/

theorem removeDouble_eq_self (s : Text) :
    removeDouble s = s ↔ keepsBackslashes s = true := by
  fun_induction keepsBackslashes s with
  | case1 c cs ih =>
    have hle := length_removeDouble_le cs
    rw [removeDouble_escape]
    split
    · rename_i hnewline
      constructor
      · intro h
        have hlength := congrArg List.length h
        simp only [length_cons] at hlength
        omega
      · simp [hnewline]
    · rename_i hnewline
      split
      · rename_i hescape
        constructor
        · intro h
          have hlength := congrArg List.length h
          simp only [length_cons] at hlength
          omega
        · simp [hescape]
      · rename_i hkept
        simp [hnewline, hkept, ih]
  | case2 c cs hne ih =>
    rw [removeDouble, List.cons.injEq, ih]
    · simp
    · exact hne
  | case3 => simp [removeDouble]

theorem removeQuotes_of_unquoted {s : Text} (h : unquoted s = true) :
    removeQuotes .plain s = s := by
  induction s with
  | nil => rfl
  | cons c cs ih =>
    simp only [unquoted, all_cons, Bool.and_eq_true, decide_eq_true_eq, mem_cons,
      not_mem_nil, or_false, not_or] at h ih
    obtain ⟨⟨hsingle, hdouble, hescape⟩, hrest⟩ := h
    rw [removeQuotes_ordinary hsingle hdouble hescape, ih hrest]

theorem removeQuotes_eq_self {s : Text} (hclosed : closed .plain s = true) :
    removeQuotes .plain s = s ↔ unquoted s = true := by
  refine ⟨?_, removeQuotes_of_unquoted⟩
  induction s with
  | nil => simp [unquoted]
  | cons c cs ih =>
    intro h
    by_cases hc : c ∈ ['\'', '"', '\\']
    · -- the quote or the backslash is gone, so the word is shorter
      exfalso
      have hlength := congrArg List.length h
      rw [List.length_cons] at hlength
      simp only [List.mem_cons, List.not_mem_nil, or_false] at hc
      rcases hc with rfl | rfl | rfl
      · have hle := length_removeQuotes_le .single cs
        rw [removeQuotes_openSingle] at hlength
        omega
      · have hle := length_removeQuotes_le .double cs
        rw [removeQuotes_openDouble] at hlength
        omega
      · cases cs with
        | nil => simp [closed] at hclosed
        | cons c cs =>
          have hle := length_removeQuotes_le .plain cs
          rw [removeQuotes_escape] at hlength
          simp only [List.length_cons] at hlength
          split at hlength
          · omega
          · rw [List.length_cons] at hlength
            omega
    · simp only [List.mem_cons, List.not_mem_nil, or_false, not_or] at hc
      obtain ⟨hsingle, hdouble, hescape⟩ := hc
      have hstep := removeQuotes_ordinary hsingle hdouble hescape .plain cs
      have hclosed' : closed .plain cs = true := by
        rw [closed] at hclosed <;> simp_all
      rw [hstep, List.cons.injEq] at h
      have hrest := ih hclosed' h.2
      simp only [unquoted, List.all_cons, Bool.and_eq_true, decide_eq_true_eq, List.mem_cons,
        List.not_mem_nil, or_false, not_or] at hrest ⊢
      exact ⟨⟨hsingle, hdouble, hescape⟩, hrest⟩

/-! ## Words that are one quoted string -/

theorem removeQuotes_single {body : Text} (h : '\'' ∉ body) :
    removeQuotes .plain ('\'' :: body ++ ['\'']) = body := by
  have hbody : ∀ body : Text, '\'' ∉ body → removeQuotes .single (body ++ ['\'']) = body := by
    intro body
    induction body with
    | nil => intro _; rfl
    | cons c cs ih =>
      intro h
      rw [List.mem_cons, not_or] at h
      have hne : ¬c = '\'' := fun heq => h.1 heq.symm
      rw [List.cons_append, removeQuotes_inSingle hne, ih h.2]
  rw [List.cons_append, removeQuotes_openSingle, hbody body h]

theorem removeQuotes_double {content : Text} (h : closedDouble content = true) :
    removeQuotes .plain ('"' :: content ++ ['"']) = removeDouble content := by
  have hcontent : ∀ content : Text, closedDouble content = true →
      removeQuotes .double (content ++ ['"']) = removeDouble content := by
    intro content
    fun_induction removeDouble content with
    | case1 cs ih =>
      intro h
      rw [closedDouble] at h
      simp [removeQuotes_escapeDouble, ih h]
    | case2 c cs hnewline hescape ih =>
      intro h
      rw [closedDouble] at h
      simp [removeQuotes_escapeDouble, hnewline, hescape, ih h]
    | case3 c cs hnewline hescape ih =>
      intro h
      rw [closedDouble] at h
      simp [removeQuotes_escapeDouble, hnewline, hescape, ih h]
    | case4 c cs hne ih =>
      intro h
      by_cases hc : c = '\\'
      · subst hc
        cases cs with
        | nil => simp [closedDouble] at h
        | cons c cs => exact absurd rfl (hne c cs rfl)
      · rw [closedDouble] at h
        · simp only [Bool.and_eq_true, decide_eq_true_eq] at h
          rw [cons_append, removeQuotes_inDouble h.1 hc, ih h.2]
        · exact hc
    | case5 => intro _; rfl
  rw [cons_append, removeQuotes_openDouble, hcontent content h]

end Quoting
