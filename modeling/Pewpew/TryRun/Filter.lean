import Pewpew.Library.Regex
import Std.Data.ExtTreeMap

/-! The filters of a try run: how they are written, and which tags they let through. -/
namespace Pewpew.TryRun

inductive TryFilter where
  | eq (key right : String)
  | ne (key right : String)
  deriving DecidableEq, Repr

/-- What `.` matches in a regular expression. -/
def notNewline (c : Char) : Bool := c != '\n'

/-- The captures of `^(.*?)(!=|=)(.*)`: what is left of the sign, whether it is `=`, and what is
right of it. The first group takes as little as it can. -/
def captureFilter : List Char → Option (List Char × Bool × List Char)
  | [] => none
  | c :: rest =>
    if c = '=' then some ([], true, rest.takeWhile notNewline)
    else if c = '!' ∧ rest.head? = some '=' then some ([], false, rest.tail.takeWhile notNewline)
    else if notNewline c then (captureFilter rest).map fun m => (c :: m.1, m.2)
    else none

/-- What `main` makes of an `--include`. -/
def tryFilter (s : String) : Option TryFilter :=
  (captureFilter s.toList).map fun m =>
    if m.2.1 then .eq (.ofList m.1) (.ofList m.2.2) else .ne (.ofList m.1) (.ofList m.2.2)

/-- An escaped text. -/
def literal : List Char → Regex Char
  | [] => .empty
  | c :: cs => .seq (.char (· == c)) (literal cs)

/-- The escaped parts of a pattern, joined by `.*?`. -/
def joinParts : List (List Char) → Regex Char
  | [] => .empty
  | [part] => literal part
  | part :: parts => .seq (literal part) (.seq (.star (.char notNewline)) (joinParts parts))

/-- `is_match` of the regular expression that `create_try_run_future` makes of the right side. -/
def isMatch (right left : String) : Bool :=
  (joinParts (right.toList.splitOn '*')).matchesWhole left.toList

def TryFilter.check (tags : Std.ExtTreeMap String String) : TryFilter → Bool
  | .eq key right => (tags[key]?.map (isMatch right)).getD false
  | .ne key right => !(tags[key]?.map (isMatch right)).getD false

/-- `filter_fn`. -/
def filterFn (filters : Option (List TryFilter)) (tags : Std.ExtTreeMap String String) : Bool :=
  let filters := filters.getD []
  filters.isEmpty || filters.any (TryFilter.check tags)

/-! ### Patterns -/

/-- A text matches a pattern in which a star stands for any characters of one line. -/
inductive Glob : List Char → List Char → Prop where
  | nil : Glob [] []
  | char {c : Char} {p t : List Char} (hc : c ≠ '*') (h : Glob p t) : Glob (c :: p) (c :: t)
  | star {p w t : List Char} (hw : '\n' ∉ w) (h : Glob p t) : Glob ('*' :: p) (w ++ t)

variable {c : Char} {p t w s left right more cs rest : List Char} {parts : List (List Char)}
  {isEq : Bool} {r r' : Regex Char} {tags : Std.ExtTreeMap String String} {text : String}

theorem notNewline_iff : (∀ c ∈ w, notNewline c = true) ↔ '\n' ∉ w := by
  simp only [notNewline, bne_iff_ne]
  constructor
  · intro h hmem
    exact h _ hmem rfl
  · rintro h c hc rfl
    exact h hc

theorem mem_lang_seq : w ∈ Regex.lang (.seq r r') ↔
    ∃ u ∈ Regex.lang r, ∃ v ∈ Regex.lang r', u ++ v = w := Language.mem_mul

theorem mem_lang_literal : w ∈ Regex.lang (literal cs) ↔ w = cs := by
  induction cs generalizing w with
  | nil => exact Language.mem_one w
  | cons c cs ih =>
    rw [literal, mem_lang_seq]
    constructor
    · rintro ⟨u, ⟨d, hd, rfl⟩, v, hv, rfl⟩
      rw [ih.mp hv, beq_iff_eq.mp hd]
      rfl
    · rintro rfl
      exact ⟨[c], ⟨c, beq_self_eq_true c, rfl⟩, cs, ih.mpr rfl, rfl⟩

theorem mem_lang_joinParts_char (hne : parts ≠ []) :
    w ∈ Regex.lang (joinParts (parts.modifyHead (c :: ·))) ↔
      ∃ t ∈ Regex.lang (joinParts parts), w = c :: t := by
  match parts with
  | [part] =>
    simp only [List.modifyHead_cons, joinParts, mem_lang_literal]
    exact ⟨fun h => ⟨part, rfl, h⟩, fun ⟨t, ht, h⟩ => ht ▸ h⟩
  | part :: part' :: parts =>
    simp only [List.modifyHead_cons, joinParts, mem_lang_seq, mem_lang_literal]
    constructor
    · rintro ⟨u, rfl, v, hv, rfl⟩
      exact ⟨part ++ v, ⟨part, rfl, v, hv, rfl⟩, rfl⟩
    · rintro ⟨t, ⟨u, rfl, v, hv, rfl⟩, rfl⟩
      exact ⟨c :: u, rfl, v, hv, rfl⟩

theorem mem_lang_joinParts_star (hne : parts ≠ []) :
    w ∈ Regex.lang (joinParts ([] :: parts)) ↔
      ∃ u t, '\n' ∉ u ∧ t ∈ Regex.lang (joinParts parts) ∧ w = u ++ t := by
  match parts with
  | part :: parts =>
    simp only [joinParts, mem_lang_seq, mem_lang_literal]
    constructor
    · rintro ⟨_, rfl, _, ⟨u, hu, t, ht, rfl⟩, rfl⟩
      exact ⟨u, t, notNewline_iff.mp (Regex.mem_lang_star_char.mp hu), ht, rfl⟩
    · rintro ⟨u, t, hu, ht, rfl⟩
      exact ⟨[], rfl, u ++ t,
        ⟨u, Regex.mem_lang_star_char.mpr (notNewline_iff.mpr hu), t, ht, rfl⟩, rfl⟩

/-- By induction on the pattern. -/
theorem mem_lang_pattern : t ∈ Regex.lang (joinParts (p.splitOn '*')) ↔ Glob p t := by
  induction p generalizing t with
  | nil =>
    rw [List.splitOn_nil, joinParts, mem_lang_literal]
    constructor
    · rintro rfl
      exact .nil
    · intro h
      cases h
      rfl
  | cons c p ih =>
    have hne : p.splitOn '*' ≠ [] := List.splitOn_ne_nil _ _
    rw [List.splitOn_cons_eq_if_modifyHead]
    split
    · next hc =>
      obtain rfl := beq_iff_eq.mp hc
      rw [mem_lang_joinParts_star hne]
      constructor
      · rintro ⟨u, t, hu, ht, rfl⟩
        exact .star hu (ih.mp ht)
      · intro h
        cases h with
        | char hc h => exact absurd rfl hc
        | star hw h => exact ⟨_, _, hw, ih.mpr h, rfl⟩
    · next hc =>
      have hc : c ≠ '*' := fun heq => hc (beq_iff_eq.mpr heq)
      rw [mem_lang_joinParts_char hne]
      constructor
      · rintro ⟨t, ht, rfl⟩
        exact .char hc (ih.mp ht)
      · intro h
        cases h with
        | char _ h => exact ⟨_, ih.mpr h, rfl⟩
        | star hw h => exact absurd rfl hc

theorem isMatch_iff {right left : String} :
    isMatch right left = true ↔ Glob right.toList left.toList := by
  rw [isMatch, Regex.matchesWhole_iff, mem_lang_pattern]

/-! ### The text of a filter -/

def sign (isEq : Bool) : List Char := if isEq then ['='] else ['!', '=']

/-- A text is a key, a sign and a pattern up to the end of the line. The key ends at the first `=`,
or before the exclamation mark there. -/
structure IsFilter (s left : List Char) (isEq : Bool) (right more : List Char) : Prop where
  text : s = left ++ (sign isEq ++ (right ++ more))
  key : '=' ∉ left ∧ '\n' ∉ left
  last : isEq = true → left.getLast? ≠ some '!'
  line : '\n' ∉ right
  rest : ∀ c ∈ more.head?, c = '\n'

theorem takeWhile_line (hright : '\n' ∉ right) (hmore : ∀ c ∈ more.head?, c = '\n') :
    (right ++ more).takeWhile notNewline = right := by
  have hall := notNewline_iff.mpr hright
  rw [List.takeWhile_append_of_pos hall]
  cases more with
  | nil => simp
  | cons c more =>
    have hc : notNewline c = false := by simp [notNewline, hmore c rfl]
    rw [List.takeWhile_cons_of_neg (by simp [hc]), List.append_nil]

theorem line_of_takeWhile (rest : List Char) : ∃ more,
    rest = rest.takeWhile notNewline ++ more ∧ '\n' ∉ rest.takeWhile notNewline ∧
      ∀ c ∈ more.head?, c = '\n' := by
  refine ⟨rest.dropWhile notNewline, List.takeWhile_append_dropWhile.symm, ?_, fun c hc => ?_⟩
  · exact notNewline_iff.mp (List.all_eq_true.mp List.all_takeWhile)
  · have hhead := List.head?_dropWhile_not notNewline rest
    rw [Option.mem_def.mp hc] at hhead
    simpa [notNewline] using hhead

theorem captureFilter_of_isFilter (h : IsFilter s left isEq right more) :
    captureFilter s = some (left, isEq, right) := by
  obtain ⟨rfl, ⟨hsign, hnewline⟩, hlast, hright, hmore⟩ := h
  have htake := takeWhile_line hright hmore
  induction left with
  | nil =>
    cases isEq with
    | true => simp [sign, captureFilter, htake]
    | false => simp [sign, captureFilter, htake]
  | cons c left ih =>
    obtain ⟨hc, hkey⟩ := not_or.mp (mt List.mem_cons.mpr hsign)
    obtain ⟨hc', hline⟩ := not_or.mp (mt List.mem_cons.mpr hnewline)
    have hno : ¬ (c = '!' ∧ (left ++ (sign isEq ++ (right ++ more))).head? = some '=') := by
      rintro ⟨rfl, hhead⟩
      cases left with
      | nil =>
        cases isEq with
        | true => exact hlast rfl rfl
        | false => simp [sign] at hhead
      | cons d left =>
        obtain rfl : d = '=' := by simpa using hhead
        exact hkey List.mem_cons_self
    have hbefore : isEq = true → left.getLast? ≠ some '!' := by
      intro heq hl
      refine hlast heq ?_
      rw [List.getLast?_cons, hl]
      rfl
    rw [List.cons_append, captureFilter, if_neg (Ne.symm hc), if_neg hno,
      if_pos (by simpa [notNewline] using Ne.symm hc'), ih hbefore hkey hline]
    rfl

theorem IsFilter.cons (h : IsFilter rest left isEq right more) (hsign : c ≠ '=') (hline : c ≠ '\n')
    (hno : ¬ (c = '!' ∧ rest.head? = some '=')) :
    IsFilter (c :: rest) (c :: left) isEq right more := by
  refine ⟨by rw [h.text]; rfl, ⟨?_, ?_⟩, fun heq hl => ?_, h.line, h.rest⟩
  · exact List.not_mem_cons_of_ne_of_not_mem (Ne.symm hsign) h.key.1
  · exact List.not_mem_cons_of_ne_of_not_mem (Ne.symm hline) h.key.2
  · cases left with
    | nil =>
      obtain rfl : c = '!' := by simpa using hl
      refine hno ⟨rfl, ?_⟩
      rw [h.text, heq]
      rfl
    | cons d left =>
      rw [List.getLast?_cons_cons] at hl
      exact h.last heq hl

theorem isFilter_of_captureFilter (h : captureFilter s = some (left, isEq, right)) :
    ∃ more, IsFilter s left isEq right more := by
  induction s generalizing left with
  | nil => cases h
  | cons c rest ih =>
    rw [captureFilter] at h
    split at h
    · next hc =>
      cases h
      obtain ⟨more, hrest, hright, hmore⟩ := line_of_takeWhile rest
      refine ⟨more, ⟨?_, by simp, by simp, hright, hmore⟩⟩
      rw [hc, ← hrest]
      rfl
    · split at h
      · next hne hc =>
        cases h
        obtain ⟨more, hrest, hright, hmore⟩ := line_of_takeWhile rest.tail
        refine ⟨more, ⟨?_, by simp, by simp, hright, hmore⟩⟩
        rw [hc.1, ← hrest, List.nil_append, sign]
        exact congrArg _ (List.eq_cons_of_mem_head? hc.2)
      · next hne hno =>
        split at h
        · next hc =>
          obtain ⟨⟨left', isEq', right'⟩, hm, heq⟩ := Option.map_eq_some_iff.mp h
          cases heq
          obtain ⟨more, hrest⟩ := ih hm
          have hline : c ≠ '\n' := by simpa [notNewline] using hc
          exact ⟨more, hrest.cons hne hline hno⟩
        · cases h

theorem captureFilter_iff :
    captureFilter s = some (left, isEq, right) ↔ ∃ more, IsFilter s left isEq right more := by
  constructor
  · exact isFilter_of_captureFilter
  · rintro ⟨more, h⟩
    exact captureFilter_of_isFilter h

/-! ### What the filters let through -/

/-- A filter with `=` lets the tags through whose value for the key matches the pattern, one with
`!=` all others. -/
def Includes (tags : Std.ExtTreeMap String String) (text : String) : Prop :=
  ∃ left isEq right more, IsFilter text.toList left isEq right more ∧
    ((∃ v, tags[String.ofList left]? = some v ∧ Glob right v.toList) ↔ isEq = true)

theorem getD_map_isMatch (tags : Std.ExtTreeMap String String) (key right : String) :
    (tags[key]?.map (isMatch right)).getD false = true ↔
      ∃ v : String, tags[key]? = some v ∧ Glob right.toList v.toList := by
  cases tags[key]? with
  | none => simp
  | some v => simp [isMatch_iff]

theorem check_iff {filter : TryFilter} (h : tryFilter text = some filter) :
    filter.check tags = true ↔ Includes tags text := by
  obtain ⟨⟨left, isEq, right⟩, hm, rfl⟩ := Option.map_eq_some_iff.mp h
  have hincludes : Includes tags text ↔
      ((∃ v, tags[String.ofList left]? = some v ∧ Glob right v.toList) ↔ isEq = true) := by
    constructor
    · rintro ⟨left', isEq', right', more, hfilter, hmatch⟩
      cases hm.symm.trans (captureFilter_of_isFilter hfilter)
      exact hmatch
    · intro hmatch
      obtain ⟨more, hfilter⟩ := captureFilter_iff.mp hm
      exact ⟨left, isEq, right, more, hfilter, hmatch⟩
  have hglob := getD_map_isMatch tags (String.ofList left) (String.ofList right)
  rw [String.toList_ofList] at hglob
  rw [hincludes]
  cases isEq with
  | true => simpa [TryFilter.check] using hglob
  | false => simpa [TryFilter.check] using not_congr hglob

/-- The filters of the command line let tags through if there are none, or if one of them includes
the tags. A text is accepted as a filter if it has a sign in its first line. -/
theorem filterFn_texts (tags : Std.ExtTreeMap String String) {texts : List String}
    {filters : List TryFilter}
    (h : List.Forall₂ (fun s filter => tryFilter s = some filter) texts filters) :
    (filterFn (some filters) tags = true ↔ texts = [] ∨ ∃ s ∈ texts, Includes tags s) ∧
      ∀ s, (tryFilter s).isSome = true ↔
        ∃ left isEq right more, IsFilter s.toList left isEq right more := by
  refine ⟨?_, fun s => ?_⟩
  · have hany : filters.any (TryFilter.check tags) = true ↔ ∃ s ∈ texts, Includes tags s := by
      induction h with
      | nil => simp
      | cons hs _ ih =>
        rw [List.any_cons, Bool.or_eq_true, check_iff hs, ih, List.exists_mem_cons_iff]
    have hempty : filters.isEmpty = true ↔ texts = [] := by
      rw [List.isEmpty_iff_length_eq_zero, ← h.length_eq, List.length_eq_zero_iff]
    rw [filterFn, Bool.or_eq_true, Option.getD_some, hempty, hany]
  · rw [tryFilter, Option.isSome_map, Option.isSome_iff_exists]
    constructor
    · rintro ⟨⟨left, isEq, right⟩, hm⟩
      obtain ⟨more, hfilter⟩ := captureFilter_iff.mp hm
      exact ⟨left, isEq, right, more, hfilter⟩
    · rintro ⟨left, isEq, right, more, hfilter⟩
      exact ⟨_, captureFilter_of_isFilter hfilter⟩

/-- The star of `service=a*` stands for any rest of the line. -/
theorem filterFn_texts_service :
    (filterFn (some [.eq "service" "a*"]) {("service", "auth")} = true ↔
      ["service=a*"] = [] ∨ ∃ s ∈ ["service=a*"], Includes {("service", "auth")} s) :=
  (filterFn_texts _ (.cons (by decide) .nil)).1

end Pewpew.TryRun
