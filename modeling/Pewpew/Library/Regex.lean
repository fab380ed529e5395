import Mathlib.Computability.Language

/-! Regular expressions with captures. Of the ways to match a text, a search takes the first one. -/
namespace Pewpew

variable {α : Type*}

/-- Alternatives are tried from left to right, and a repetition takes as much as it can. -/
inductive Regex (α : Type*) where
  | empty
  | char (p : α → Bool)
  | seq (r s : Regex α)
  | alt (r s : Regex α)
  | star (r : Regex α)
  | capture (i : Nat) (r : Regex α)

namespace Regex

/-- What has been captured, and what is left of the text. -/
abbrev Match (α : Type*) := List (Nat × List α) × List α

def plus (r : Regex α) : Regex α := .seq r (.star r)

def opt (r : Regex α) : Regex α := .alt r .empty

/-- At most `n` rounds; a round that takes nothing is none. -/
def rounds (f : List α → List (Match α)) : (n : Nat) → List α → List (Match α)
  | 0, s => [([], s)]
  | n + 1, s =>
    ((f s).filter (·.2.length < s.length)).flatMap (fun m =>
      (rounds f n m.2).map fun m' => (m.1 ++ m'.1, m'.2)) ++ [([], s)]

/-- The ways to match the start of a text, the preferred ones first. -/
def tries : Regex α → List α → List (Match α)
  | .empty, s => [([], s)]
  | .char _, [] => []
  | .char p, c :: s => if p c then [([], s)] else []
  | .seq r r', s => (tries r s).flatMap fun m => (tries r' m.2).map fun m' => (m.1 ++ m'.1, m'.2)
  | .alt r r', s => tries r s ++ tries r' s
  | .star r, s => rounds (tries r) s.length s
  | .capture i r, s => (tries r s).map fun m => ((i, s.take (s.length - m.2.length)) :: m.1, m.2)

/-- The match that a search takes. -/
def first (r : Regex α) (s : List α) : Option (Match α) := (tries r s).head?

/-- Whether the expression matches the text from its start to its end. -/
def matchesWhole (r : Regex α) (s : List α) : Bool := (tries r s).any (·.2.isEmpty)

/-- The captures of the match of the whole text that a search with anchors takes. -/
def capturesWhole (r : Regex α) (s : List α) : Option (List (Nat × List α)) :=
  ((tries r s).find? (·.2.isEmpty)).map Prod.fst

/-- Nothing is captured. -/
def Captureless : Regex α → Prop
  | .empty | .char _ => True
  | .seq r s | .alt r s => r.Captureless ∧ s.Captureless
  | .star r => r.Captureless
  | .capture _ _ => False

/-- The captures of the matches in a text, one after another; `skip` elements belong to the last
match. An expression that takes nothing at the end of the text is not looked for. -/
def capturesIter (r : Regex α) : (skip : Nat) → List α → List (List (Nat × List α))
  | _, [] => []
  | skip + 1, _ :: s => capturesIter r skip s
  | 0, c :: s =>
    match first r (c :: s) with
    | some (captures, rest) => captures :: capturesIter r (s.length - rest.length) s
    | none => capturesIter r 0 s

/-- The texts that an expression matches. -/
def lang : Regex α → Language α
  | .empty => 1
  | .char p => {w | ∃ c, p c = true ∧ w = [c]}
  | .seq r s => lang r * lang s
  | .alt r s => lang r + lang s
  | .star r => KStar.kstar (lang r)
  | .capture _ r => lang r

variable {r r' : Regex α} {p : α → Bool} {f : List α → List (Match α)} {l : Language α}
  {s rest w : List α} {m m' : Match α} {n i : Nat}

theorem append_mem_kstar (hw : w ∈ l) {w' : List α} (hw' : w' ∈ KStar.kstar l) :
    w ++ w' ∈ KStar.kstar l := by
  obtain ⟨parts, rfl, hparts⟩ := Language.mem_kstar.mp hw'
  exact Language.mem_kstar.mpr ⟨w :: parts, rfl, List.forall_mem_cons.mpr ⟨hw, hparts⟩⟩

/-- What any number of rounds matches has matches one after another. -/
theorem rounds_sound (hf : ∀ s cs rest, (cs, rest) ∈ f s → ∃ w ∈ l, s = w ++ rest)
    {cs : List (Nat × List α)} (h : (cs, rest) ∈ rounds f n s) :
    ∃ w ∈ KStar.kstar l, s = w ++ rest := by
  induction n generalizing s cs with
  | zero =>
    obtain ⟨-, rfl⟩ := Prod.mk.inj (List.mem_singleton.mp h)
    exact ⟨[], Language.nil_mem_kstar l, rfl⟩
  | succ n ih =>
    rcases List.mem_append.mp h with h | h
    · obtain ⟨⟨cs₁, rest₁⟩, hm, h⟩ := List.mem_flatMap.mp h
      obtain ⟨⟨cs₂, rest₂⟩, hm', heq⟩ := List.mem_map.mp h
      cases heq
      obtain ⟨w, hw, rfl⟩ := hf s cs₁ rest₁ (List.mem_filter.mp hm).1
      obtain ⟨w', hw', rfl⟩ := ih hm'
      exact ⟨w ++ w', append_mem_kstar hw hw', (List.append_assoc ..).symm⟩
    · obtain ⟨-, rfl⟩ := Prod.mk.inj (List.mem_singleton.mp h)
      exact ⟨[], Language.nil_mem_kstar l, rfl⟩

/-- Enough rounds match any matches one after another, by induction on these. -/
theorem rounds_complete (hf : ∀ w ∈ l, ∀ rest, ∃ cs, (cs, rest) ∈ f (w ++ rest))
    {parts : List (List α)} (hparts : ∀ w ∈ parts, w ∈ l ∧ w ≠ [])
    (hn : (parts.flatten ++ rest).length ≤ n) :
    ∃ cs, (cs, rest) ∈ rounds f n (parts.flatten ++ rest) := by
  induction parts generalizing n with
  | nil =>
    refine ⟨[], ?_⟩
    cases n with
    | zero => exact List.mem_singleton_self _
    | succ n => exact List.mem_append_right _ (List.mem_singleton_self _)
  | cons w parts ih =>
    obtain ⟨⟨hw, hne⟩, hparts⟩ := List.forall_mem_cons.mp hparts
    have hpos := List.length_pos_of_ne_nil hne
    rw [List.flatten_cons, List.append_assoc] at hn ⊢
    rw [List.length_append] at hn
    cases n with
    | zero => omega
    | succ n =>
      obtain ⟨cs, hcs⟩ := hf w hw (parts.flatten ++ rest)
      obtain ⟨cs', hcs'⟩ := ih (n := n) hparts (by omega)
      have hround : (cs, parts.flatten ++ rest) ∈
          (f (w ++ (parts.flatten ++ rest))).filter
            (·.2.length < (w ++ (parts.flatten ++ rest)).length) :=
        List.mem_filter.mpr ⟨hcs, by simpa using hpos⟩
      exact ⟨cs ++ cs', List.mem_append_left _
        (List.mem_flatMap.mpr ⟨_, hround, List.mem_map.mpr ⟨(cs', rest), hcs', rfl⟩⟩)⟩

theorem tries_sound (r : Regex α) {s rest : List α} {cs : List (Nat × List α)}
    (h : (cs, rest) ∈ tries r s) : ∃ w ∈ lang r, s = w ++ rest := by
  induction r generalizing s rest cs with
  | empty =>
    obtain ⟨-, rfl⟩ := Prod.mk.inj (List.mem_singleton.mp h)
    exact ⟨[], rfl, rfl⟩
  | char p =>
    cases s with
    | nil => cases h
    | cons c s =>
      rw [tries] at h
      split at h
      · next hp =>
        obtain ⟨-, rfl⟩ := Prod.mk.inj (List.mem_singleton.mp h)
        exact ⟨[c], ⟨c, hp, rfl⟩, rfl⟩
      · cases h
  | seq r r' ih ih' =>
    obtain ⟨⟨cs₁, rest₁⟩, hm, h⟩ := List.mem_flatMap.mp h
    obtain ⟨⟨cs₂, rest₂⟩, hm', heq⟩ := List.mem_map.mp h
    cases heq
    obtain ⟨w, hw, rfl⟩ := ih hm
    obtain ⟨w', hw', rfl⟩ := ih' hm'
    exact ⟨w ++ w', Language.append_mem_mul hw hw', (List.append_assoc ..).symm⟩
  | alt r r' ih ih' =>
    rcases List.mem_append.mp h with h | h
    · obtain ⟨w, hw, rfl⟩ := ih h
      exact ⟨w, .inl hw, rfl⟩
    · obtain ⟨w, hw, rfl⟩ := ih' h
      exact ⟨w, .inr hw, rfl⟩
  | star r ih => exact rounds_sound (fun _ _ _ => ih) h
  | capture i r ih =>
    obtain ⟨⟨cs', rest'⟩, hm, heq⟩ := List.mem_map.mp h
    cases heq
    exact ih hm

theorem tries_complete (r : Regex α) {w : List α} (hw : w ∈ lang r) (rest : List α) :
    ∃ cs, (cs, rest) ∈ tries r (w ++ rest) := by
  induction r generalizing w rest with
  | empty =>
    obtain rfl : w = [] := hw
    exact ⟨[], List.mem_singleton_self _⟩
  | char p =>
    obtain ⟨c, hp, rfl⟩ := hw
    exact ⟨[], by simp [tries, hp]⟩
  | seq r r' ih ih' =>
    obtain ⟨w₁, hw₁, w₂, hw₂, rfl⟩ := Language.mem_mul.mp hw
    obtain ⟨cs₁, h₁⟩ := ih hw₁ (w₂ ++ rest)
    obtain ⟨cs₂, h₂⟩ := ih' hw₂ rest
    rw [List.append_assoc]
    exact ⟨cs₁ ++ cs₂, List.mem_flatMap.mpr ⟨_, h₁, List.mem_map.mpr ⟨_, h₂, rfl⟩⟩⟩
  | alt r r' ih ih' =>
    rcases hw with hw | hw
    · obtain ⟨cs, h⟩ := ih hw rest
      exact ⟨cs, List.mem_append_left _ h⟩
    · obtain ⟨cs, h⟩ := ih' hw rest
      exact ⟨cs, List.mem_append_right _ h⟩
  | star r ih =>
    obtain ⟨parts, rfl, hparts⟩ := Language.mem_kstar_iff_exists_nonempty.mp hw
    exact rounds_complete (fun w hw rest => ih hw rest) hparts le_rfl
  | capture i r ih =>
    obtain ⟨cs, h⟩ := ih hw rest
    exact ⟨_, List.mem_map.mpr ⟨_, h, rfl⟩⟩

/-- An expression matches the texts of its language. -/
theorem matchesWhole_iff : matchesWhole r s = true ↔ s ∈ lang r := by
  rw [matchesWhole, List.any_eq_true]
  constructor
  · rintro ⟨⟨cs, rest⟩, hm, hrest⟩
    obtain rfl := List.isEmpty_iff.mp hrest
    obtain ⟨w, hw, rfl⟩ := tries_sound r hm
    rwa [List.append_nil]
  · intro hs
    obtain ⟨cs, h⟩ := tries_complete r hs []
    rw [List.append_nil] at h
    exact ⟨_, h, rfl⟩

theorem mem_lang_plus : w ∈ lang (plus r) ↔
    ∃ parts : List (List α), parts ≠ [] ∧ (∀ v ∈ parts, v ∈ lang r) ∧ w = parts.flatten := by
  constructor
  · intro hw
    obtain ⟨v, hv, w', hw', rfl⟩ := Language.mem_mul.mp hw
    obtain ⟨parts, rfl, hparts⟩ := Language.mem_kstar.mp hw'
    exact ⟨v :: parts, List.cons_ne_nil _ _, List.forall_mem_cons.mpr ⟨hv, hparts⟩, rfl⟩
  · rintro ⟨parts, hne, hparts, rfl⟩
    cases parts with
    | nil => exact absurd rfl hne
    | cons v parts =>
      obtain ⟨hv, hparts⟩ := List.forall_mem_cons.mp hparts
      exact Language.append_mem_mul hv (Language.join_mem_kstar hparts)

theorem mem_lang_star_char : w ∈ lang (.star (.char p)) ↔ ∀ c ∈ w, p c = true := by
  constructor
  · intro hw
    obtain ⟨parts, rfl, hparts⟩ := Language.mem_kstar.mp hw
    intro c hc
    obtain ⟨v, hv, hc⟩ := List.mem_flatten.mp hc
    obtain ⟨c', hp, rfl⟩ := hparts v hv
    rwa [List.mem_singleton.mp hc]
  · intro hw
    refine Language.mem_kstar.mpr ⟨w.map ([·]), by simp [← List.flatMap_def], fun v hv => ?_⟩
    obtain ⟨c, hc, rfl⟩ := List.mem_map.mp hv
    exact ⟨c, hw c hc, rfl⟩

theorem mem_lang_plus_char : w ∈ lang (plus (.char p)) ↔ w ≠ [] ∧ ∀ c ∈ w, p c = true := by
  constructor
  · intro hw
    obtain ⟨v, ⟨c, hc, rfl⟩, w', hw', rfl⟩ := Language.mem_mul.mp hw
    exact ⟨List.cons_ne_nil _ _, List.forall_mem_cons.mpr ⟨hc, mem_lang_star_char.mp hw'⟩⟩
  · rintro ⟨hne, hw⟩
    cases w with
    | nil => exact absurd rfl hne
    | cons c w =>
      obtain ⟨hc, hw⟩ := List.forall_mem_cons.mp hw
      exact Language.append_mem_mul (a := [c]) ⟨c, hc, rfl⟩ (mem_lang_star_char.mpr hw)

/-! ### What is captured -/

theorem capturesWhole_isSome : (capturesWhole r s).isSome = matchesWhole r s := by
  rw [capturesWhole, Option.isSome_map, List.isSome_find?, matchesWhole]

theorem capturesWhole_some {cs : List (Nat × List α)} (h : capturesWhole r s = some cs) :
    (cs, []) ∈ tries r s := by
  obtain ⟨⟨cs', rest⟩, hfound, rfl⟩ := Option.map_eq_some_iff.mp h
  have hrest : rest.isEmpty = true := by simpa using List.find?_some hfound
  obtain rfl := List.isEmpty_iff.mp hrest
  exact List.mem_of_find?_eq_some hfound

theorem rounds_captureless (hf : ∀ s, ∀ m ∈ f s, m.1 = []) : ∀ m ∈ rounds f n s, m.1 = [] := by
  induction n generalizing s with
  | zero => simp [rounds]
  | succ n ih =>
    intro m hm
    rcases List.mem_append.mp hm with hm | hm
    · obtain ⟨m₁, hm₁, hm⟩ := List.mem_flatMap.mp hm
      obtain ⟨m₂, hm₂, rfl⟩ := List.mem_map.mp hm
      simp [hf s m₁ (List.mem_of_mem_filter hm₁), ih m₂ hm₂]
    · rw [List.mem_singleton.mp hm]

theorem Captureless.tries (h : r.Captureless) : ∀ m ∈ tries r s, m.1 = [] := by
  induction r generalizing s with
  | empty => simp [Regex.tries]
  | char p =>
    intro m hm
    cases s with
    | nil => cases hm
    | cons c s =>
      rw [Regex.tries] at hm
      split at hm
      · rw [List.mem_singleton.mp hm]
      · cases hm
  | seq r r' ih ih' =>
    intro m hm
    obtain ⟨m₁, hm₁, hm⟩ := List.mem_flatMap.mp hm
    obtain ⟨m₂, hm₂, rfl⟩ := List.mem_map.mp hm
    simp [ih h.1 m₁ hm₁, ih' h.2 m₂ hm₂]
  | alt r r' ih ih' =>
    intro m hm
    rcases List.mem_append.mp hm with hm | hm
    · exact ih h.1 m hm
    · exact ih' h.2 m hm
  | star r ih => exact rounds_captureless fun s => ih h
  | capture i r => exact h.elim

theorem mem_tries_seq {cs : List (Nat × List α)} (h : (cs, rest) ∈ tries (.seq r r') s) :
    ∃ cs₁ mid cs₂, (cs₁, mid) ∈ tries r s ∧ (cs₂, rest) ∈ tries r' mid ∧ cs = cs₁ ++ cs₂ := by
  obtain ⟨⟨cs₁, mid⟩, h₁, h⟩ := List.mem_flatMap.mp h
  obtain ⟨⟨cs₂, rest'⟩, h₂, heq⟩ := List.mem_map.mp h
  cases heq
  exact ⟨cs₁, mid, cs₂, h₁, h₂, rfl⟩

theorem mem_tries_captureless {cs : List (Nat × List α)} (hr : r.Captureless)
    (h : (cs, rest) ∈ tries r s) : ∃ w ∈ lang r, s = w ++ rest ∧ cs = [] := by
  obtain ⟨w, hw, rfl⟩ := tries_sound r h
  exact ⟨w, hw, rfl, hr.tries _ h⟩

theorem mem_tries_capture {cs : List (Nat × List α)} (hr : r.Captureless)
    (h : (cs, rest) ∈ tries (.capture i r) s) : ∃ w ∈ lang r, s = w ++ rest ∧ cs = [(i, w)] := by
  obtain ⟨⟨cs', rest'⟩, hm, heq⟩ := List.mem_map.mp h
  cases heq
  obtain ⟨w, hw, rfl, rfl⟩ := mem_tries_captureless hr hm
  exact ⟨w, hw, rfl, by simp⟩

/-! ### The match that a search takes -/

theorem first_seq (h : first r s = some m) (h' : first r' m.2 = some m') :
    first (.seq r r') s = some (m.1 ++ m'.1, m'.2) := by
  obtain ⟨ms, hms⟩ := List.head?_eq_some_iff.mp h
  obtain ⟨ms', hms'⟩ := List.head?_eq_some_iff.mp h'
  rw [first, tries, hms, List.flatMap_cons, hms']
  rfl

theorem first_char {c : α} (h : p c = true) : first (.char p) (c :: s) = some ([], s) := by
  rw [first, tries, if_pos h]
  rfl

theorem first_capture {cs : List (Nat × List α)} (h : first r (w ++ rest) = some (cs, rest)) :
    first (.capture i r) (w ++ rest) = some ((i, w) :: cs, rest) := by
  obtain ⟨ms, hms⟩ := List.head?_eq_some_iff.mp h
  rw [first, tries, hms]
  simp

theorem tries_char_of_not {c : α} (h : p c = false) : tries (.char p) (c :: s) = [] := by
  rw [tries, h]
  rfl

theorem tries_seq_of_nil (h : tries r s = []) : tries (.seq r r') s = [] := by
  rw [tries, h, List.flatMap_nil]

/-- Enough rounds over a class take all that there is of it. -/
theorem rounds_char (hw : ∀ c ∈ w, p c = true) (hrest : ∀ c ∈ rest.head?, p c = false)
    (hn : w.length ≤ n) :
    (rounds (tries (.char p)) n (w ++ rest)).head? = some ([], rest) := by
  induction w generalizing n with
  | nil =>
    cases n with
    | zero => rfl
    | succ n =>
      have hnone : tries (.char p) rest = [] := by
        cases rest with
        | nil => rfl
        | cons c rest => exact tries_char_of_not (hrest c rfl)
      rw [List.nil_append, rounds, hnone]
      rfl
  | cons c w ih =>
    obtain ⟨hc, hw⟩ := List.forall_mem_cons.mp hw
    cases n with
    | zero => cases hn
    | succ n =>
      obtain ⟨ms, hms⟩ := List.head?_eq_some_iff.mp (ih hw (Nat.le_of_succ_le_succ hn))
      have hone : tries (.char p) (c :: (w ++ rest)) = [([], w ++ rest)] := by rw [tries, if_pos hc]
      rw [List.cons_append, rounds, hone]
      simp [hms]

theorem first_star_char (hw : ∀ c ∈ w, p c = true) (hrest : ∀ c ∈ rest.head?, p c = false) :
    first (.star (.char p)) (w ++ rest) = some ([], rest) := by
  rw [first, tries]
  exact rounds_char hw hrest (by simp)

theorem first_plus_char (hne : w ≠ []) (hw : ∀ c ∈ w, p c = true)
    (hrest : ∀ c ∈ rest.head?, p c = false) :
    first (plus (.char p)) (w ++ rest) = some ([], rest) := by
  cases w with
  | nil => exact absurd rfl hne
  | cons c w =>
    obtain ⟨hc, hw⟩ := List.forall_mem_cons.mp hw
    exact first_seq (m := ([], w ++ rest)) (first_char hc) (first_star_char hw hrest)

/-! ### All matches in a text -/

theorem capturesIter_skip : capturesIter r w.length (w ++ s) = capturesIter r 0 s := by
  induction w with
  | nil => rfl
  | cons c w ih => exact ih

/-- Where no match starts there is none. -/
theorem capturesIter_of_none (h : ∀ c ∈ w, ∀ t, tries r (c :: t) = []) :
    capturesIter r 0 (w ++ s) = capturesIter r 0 s := by
  induction w with
  | nil => rfl
  | cons c w ih =>
    obtain ⟨hc, hw⟩ := List.forall_mem_cons.mp h
    have hnone : first r (c :: (w ++ s)) = none := by rw [first, hc]; rfl
    rw [List.cons_append, capturesIter, hnone]
    exact ih hw

theorem capturesIter_of_first {cs : List (Nat × List α)} (hne : w ≠ [])
    (h : first r (w ++ rest) = some (cs, rest)) :
    capturesIter r 0 (w ++ rest) = cs :: capturesIter r 0 rest := by
  cases w with
  | nil => exact absurd rfl hne
  | cons c w =>
    have hlength : (w ++ rest).length - rest.length = w.length := by simp
    rw [List.cons_append] at h ⊢
    rw [capturesIter, h]
    simp only [hlength, capturesIter_skip]

end Regex

end Pewpew
