import Mathlib.Data.List.TakeWhile
import Pewpew.Providers.JsonReader

/-! Where the calls of `read` make no difference to the values of a file of JSON values. -/
namespace Pewpew.FileProvider

open SelectParser

variable {d : StreamDeserializer} {f : JsonFile d} {chunk pick : Nat → Nat} {s s' : JsonReader}
  {t : Token} {j n : Nat}

theorem JsonFile.start_succ (f : JsonFile d) (h : f.tokens[j]? = some t) :
    f.start (j + 1) = f.start j + (t.gap.length + t.text.length) := by
  simp [start, bytesOf, List.take_add_one, h]

theorem JsonFile.bytes_split (f : JsonFile d) (j : Nat) :
    f.bytes = bytesOf (f.tokens.take j) [] ++ bytesOf (f.tokens.drop j) f.tail := by
  rw [bytes, bytesOf, bytesOf, bytesOf, List.append_nil, ← List.append_assoc, ← List.flatMap_append,
    List.take_append_drop]

theorem JsonFile.drop_start (f : JsonFile d) (j : Nat) :
    f.bytes.drop (f.start j) = bytesOf (f.tokens.drop j) f.tail := by
  rw [f.bytes_split j, start, List.drop_left]

theorem bytesOf_cons (t : Token) (ts : List Token) (tail : List UInt8) :
    bytesOf (t :: ts) tail = t.gap ++ t.text ++ bytesOf ts tail := by
  simp [bytesOf]

theorem JsonFile.drop_tokens (f : JsonFile d) (h : f.tokens[j]? = some t) :
    bytesOf (f.tokens.drop j) f.tail =
      t.gap ++ t.text ++ bytesOf (f.tokens.drop (j + 1)) f.tail := by
  obtain ⟨hj, rfl⟩ := List.getElem?_eq_some_iff.mp h
  rw [List.drop_eq_getElem_cons hj, bytesOf_cons]

/-- Whitespace follows each value, or the end of the file. -/
theorem JsonFile.separated (f : JsonFile d) (j : Nat) :
    Separated (bytesOf (f.tokens.drop (j + 1)) f.tail) := by
  cases hts : f.tokens.drop (j + 1) with
  | nil =>
    intro b hb
    exact f.blank b (List.mem_of_mem_head? hb)
  | cons t ts =>
    have ht : t ∈ f.tokens.tail := by
      rw [← List.drop_one]
      refine List.mem_of_mem_drop (i := j) ?_
      rw [List.drop_drop, Nat.add_comm 1 j, hts]
      exact List.mem_cons_self
    obtain ⟨b, g, hg⟩ := List.exists_cons_of_ne_nil (f.gaps t ht)
    intro c hc
    rw [bytesOf_cons, hg] at hc
    obtain rfl : b = c := by simpa using hc
    refine (f.texts t (List.mem_of_mem_tail ht)).1 b ?_
    rw [hg]
    exact List.mem_cons_self

theorem JsonFile.le_start (hd : d.Documented) (f : JsonFile d) (hj : j ≤ f.tokens.length) :
    j ≤ f.start j := by
  induction j with
  | zero => exact Nat.zero_le _
  | succ j ih =>
    have ht := List.getElem?_eq_getElem hj
    have htext := List.length_pos_iff.mpr
      (hd.text_ne_nil (f.texts _ (List.mem_of_getElem? ht)).2)
    have hstart := ih (Nat.le_of_succ_le hj)
    rw [f.start_succ ht]
    omega

theorem JsonFile.length_tokens (hd : d.Documented) (f : JsonFile d) :
    f.tokens.length ≤ f.bytes.length := by
  refine (f.le_start hd (Nat.le_refl _)).trans ?_
  rw [f.bytes_split f.tokens.length, List.length_append]
  exact Nat.le_add_right _ _

theorem StreamDeserializer.all_eq (hd : d.Documented) (f : JsonFile d) {fuel : Nat}
    (hfuel : f.tokens.length < j + fuel) : d.all fuel (bytesOf (f.tokens.drop j) f.tail) =
      (f.tokens.drop j).map fun t => .ok t.value := by
  induction fuel generalizing j with
  | zero =>
    rw [List.drop_eq_nil_of_le (by omega)]
    rfl
  | succ fuel ih =>
    cases ht : f.tokens[j]? with
    | none =>
      rw [List.drop_eq_nil_of_le (List.getElem?_eq_none_iff.mp ht), all]
      have hnext : d.next (bytesOf [] f.tail) = .none := hd.blank _ f.blank
      rw [hnext]
      rfl
    | some t =>
      obtain ⟨hgap, htext⟩ := f.texts t (List.mem_of_getElem? ht)
      have hnext := hd.complete _ _ _ _ hgap htext (f.separated j)
      rw [f.drop_tokens ht, all, hnext]
      simp only
      rw [← List.length_append, List.drop_left, ih (by omega)]
      obtain ⟨hj, rfl⟩ := List.getElem?_eq_some_iff.mp ht
      rw [List.drop_eq_getElem_cons hj, List.map_cons]

/-- The bytes of a value with the gap before it. -/
def JsonFile.range (f : JsonFile d) (j : Nat) : Nat × Nat :=
  (f.start j, f.start (j + 1) - f.start j)

/-- The reader before a value, at the position of the value. -/
def AtToken (chunk : Nat → Nat) (f : JsonFile d) (j : Nat) (s : JsonReader) : Prop :=
  s.position = f.start j ∧
    ∃ n, Window chunk f.bytes (bytesOf (f.tokens.drop j) f.tail) n s

theorem atToken_open (chunk : Nat → Nat) (f : JsonFile d) : AtToken chunk f 0 (.open f.bytes) :=
  ⟨rfl, 0, rfl, rfl, rfl⟩

theorem delivers_tokens (hd : d.Documented) (hf : CutFree d chunk f) :
    Delivers (JsonReader.access d chunk) (f.tokens.map (·.value)) f.range (AtToken chunk f) where
  value := by
    rintro j r _ ⟨hpos, n, hw⟩ hv
    rw [List.getElem?_map, Option.map_eq_some_iff] at hv
    obtain ⟨t, ht, rfl⟩ := hv
    obtain ⟨hgap, htext⟩ := f.texts t (List.mem_of_getElem? ht)
    rw [f.drop_tokens ht] at hw
    obtain ⟨p, v, m, s', hloop, hg⟩ := loop_gives hd r.position hgap htext
      (f.separated j) hw
    have hs' := hg.position
    rcases hg.whole with ⟨hp, hv⟩ | ⟨hne, hend⟩
    · subst hp hv
      refine ⟨s', ?_, ?_, m, ?_⟩
      · rw [JsonFile.range, f.start_succ ht, Nat.add_sub_cancel_left, ← hpos]
        exact hloop
      · rw [f.start_succ ht, hs', hpos]
      · have hwindow := hg.window
        rw [← List.length_append, List.drop_left] at hwindow
        exact hwindow
    · refine absurd ⟨p, v, hg.initial, hne, hg.text, ?_⟩ (hf j t ht m)
      rw [← hpos, ← hend, hs']
  done := by
    rintro r ⟨hpos, n, hw⟩
    have hnil : bytesOf (f.tokens.drop (f.tokens.map (·.value)).length) f.tail = f.tail := by
      rw [List.length_map, List.drop_length]
      rfl
    have htail := f.blank
    rw [← hnil] at htail
    obtain ⟨m, s', hloop, hs', hw'⟩ := loop_done hd r.position htail hw
    exact ⟨s', hloop, hs'.trans hpos, m, hw'⟩

/-- The range of a value holds its text behind the gap. -/
theorem JsonFile.contains_range (f : JsonFile d) (ht : f.tokens[j]? = some t) :
    Contains f.bytes (f.range j) t := by
  refine ⟨t.gap, [], (f.texts t (List.mem_of_getElem? ht)).1, by simp [Blank], ?_⟩
  rw [range, f.start_succ ht, Nat.add_sub_cancel_left, f.drop_start, f.drop_tokens ht,
    ← List.length_append, List.take_left, List.append_nil]

theorem chunkIndependent_of_cutFree (hd : d.Documented) (hf : CutFree d chunk f) :
    ChunkIndependent d chunk pick f := by
  have hdel := delivers_tokens hd hf
  have hat : AtToken chunk f 0 (.open f.bytes) := atToken_open chunk f
  have hlength := f.length_tokens hd
  have hfuel : (f.tokens.map (·.value)).length < f.bytes.length + 1 := by
    rw [List.length_map]
    exact Nat.lt_succ_of_le hlength
  constructor
  · refine ⟨⟨.open f.bytes, [], none, false, 0⟩, rfl, fun k => ?_⟩
    have hall : d.all (f.bytes.length + 1) f.bytes = f.tokens.map fun t => .ok t.value :=
      d.all_eq hd f (show f.tokens.length < 0 + (f.bytes.length + 1) by omega)
    rw [results_sequential hdel (Nat.zero_le _) hat, hall]
    refine congrArg some (List.map_congr_left fun i _ => ?_)
    rw [Nat.zero_add, List.getElem?_map, List.getElem?_map, Option.map_map]
    rfl
  · have hpositions : List.Forall₂ (Contains f.bytes)
        ((recorded (f.tokens.map (·.value)) f.range).map (·.1)) f.tokens := by
      rw [recorded_fst, List.length_map, List.forall₂_iff_get]
      refine ⟨by simp, fun i hi hi' => ?_⟩
      simp only [List.get_eq_getElem, List.getElem_map, List.getElem_range]
      exact f.contains_range (List.getElem?_eq_getElem hi')
    by_cases hnil : f.tokens.map (·.value) = []
    · obtain ⟨r', -, hnew⟩ := new_random_nil pick hdel hfuel hat hnil false
      refine ⟨_, hnew, ?_⟩
      rw [hnil] at hpositions
      exact hpositions
    · obtain ⟨j, r', -, hnew⟩ := new_random pick hdel hfuel hat hnil false
      exact ⟨_, hnew, hpositions⟩

/-- A range that holds a prefix of the text behind the gap, and the text as well, holds all of the
text there. -/
theorem eq_text_of_range (hd : d.Documented) (hgap : Blank t.gap) (htext : d.Text t.text t.value)
    {p g g' : List UInt8} (hp : p <+: t.text) (h : t.gap ++ p = g ++ t.text ++ g') :
    p = t.text := by
  refine hp.eq_of_length_le ?_
  rw [List.append_assoc] at h
  rcases List.append_eq_append_iff.mp h with ⟨more, -, hmore⟩ | ⟨more, hgap', hmore⟩
  · rw [hmore, List.length_append, List.length_append]
    omega
  · cases more with
    | nil =>
      have hlen := congrArg List.length hmore
      rw [List.length_append] at hlen
      simp only [List.nil_append] at hlen
      omega
    | cons b more =>
      obtain ⟨c, hc, hvisible⟩ := hd.visible _ _ htext
      have hbc : b = c := by
        cases htt : t.text with
        | nil =>
          rw [htt] at hc
          cases hc
        | cons e es =>
          rw [htt] at hc hmore
          simp only [List.cons_append, List.cons.injEq] at hmore
          rw [← hmore.1]
          simpa using hc
      have hspace : isSpace b = true := by
        refine hgap b ?_
        rw [hgap']
        simp
      rw [hbc, hvisible] at hspace
      cases hspace

/-- Where the ranges that are recorded hold the values that are left, no read ends in a cut. -/
theorem cutFree_of_scan (hd : d.Documented) {fuel : Nat} {positions ranges : List (Nat × Nat)}
    (hpos : s.position = f.start j)
    (hw : Window chunk f.bytes (bytesOf (f.tokens.drop j) f.tail) n s)
    (hbehind : ∀ k < n, (fileAfter chunk f.bytes k).offset < s.position)
    (hscan : scan (JsonReader.access d chunk) fuel positions s =
      some (.ok (positions ++ ranges, s')))
    (hranges : List.Forall₂ (Contains f.bytes) ranges (f.tokens.drop j)) {i : Nat} (hji : j ≤ i)
    (ht : f.tokens[i]? = some t) (k : Nat) :
    ¬ Cut d t (f.start i) (fileAfter chunk f.bytes k).offset := by
  induction fuel generalizing j positions ranges s n with
  | zero => cases hscan
  | succ fuel ih =>
    have hj : j < f.tokens.length := hji.trans_lt (List.getElem?_eq_some_iff.mp ht).1
    obtain ⟨u, hu⟩ : ∃ u, f.tokens[j]? = some u := ⟨_, List.getElem?_eq_getElem hj⟩
    have htokens : f.tokens.drop j = u :: f.tokens.drop (j + 1) := by
      rw [List.drop_eq_getElem_cons hj, (List.getElem?_eq_some_iff.mp hu).2]
    obtain ⟨hgap, htext⟩ := f.texts u (List.mem_of_getElem? hu)
    rw [f.drop_tokens hu] at hw
    obtain ⟨p, v, m, s₁, hloop, hg⟩ := loop_gives hd s.position hgap htext
      (f.separated j) hw
    have hs₁ := hg.position
    have hnext : scan (JsonReader.access d chunk) (fuel + 1) positions s =
        scan (JsonReader.access d chunk) fuel
          (positions ++ [(s.position, u.gap.length + p.length)]) s₁ := by
      have hget : (JsonReader.access d chunk).getValue none s = _ := hloop
      rw [scan, hget]
      rfl
    rw [hnext] at hscan
    obtain ⟨ranges', hranges'⟩ := scan_prefix hscan
    rw [List.append_assoc, List.append_cancel_left_eq, List.singleton_append] at hranges'
    subst hranges'
    rw [htokens, List.forall₂_cons] at hranges
    obtain ⟨⟨g, g', -, -, hcontains⟩, hrest⟩ := hranges
    -- the range that is recorded first holds the first value, so the value is whole
    have hwhole : p = u.text := by
      refine eq_text_of_range hd hgap htext hg.initial (Eq.trans ?_ hcontains)
      rw [hpos, f.drop_start, f.drop_tokens hu]
      obtain ⟨more, hmore⟩ := hg.initial
      rw [← hmore, ← List.length_append, List.append_assoc, List.append_assoc, ← List.append_assoc,
        List.take_left]
    have hafter : s₁.position = f.start (j + 1) := by
      rw [f.start_succ hu, hs₁, hpos, hwhole]
    have hpassed : ∀ k < m, (fileAfter chunk f.bytes k).offset < s₁.position ∧
        ¬ Cut d u (f.start j) (fileAfter chunk f.bytes k).offset := by
      intro k hk
      rcases Nat.lt_or_ge k n with hlt | hge
      · have hoffset := hbehind k hlt
        refine ⟨by omega, ?_⟩
        rintro ⟨q, w, -, -, -, hq⟩
        omega
      · rw [← hpos]
        exact hg.passed k hge hk
    rcases Nat.eq_or_lt_of_le hji with rfl | hlt
    · obtain rfl : u = t := Option.some_injective _ (hu.symm.trans ht)
      rcases Nat.lt_or_ge k m with hkm | hmk
      · exact (hpassed k hkm).2
      · -- all of the text has been read
        rintro ⟨q, w, hq, hne, -, hoffset⟩
        have hposition := hg.window.position
        have hle : (fileAfter chunk f.bytes m).offset ≤ (fileAfter chunk f.bytes k).offset :=
          offset_le hmk
        rw [hg.window.reader] at hposition
        rw [hwhole] at hs₁
        refine hne (hq.eq_of_length_le ?_)
        omega
    · have hwindow := hg.window
      rw [hwhole, ← List.length_append, List.drop_left] at hwindow
      rw [List.append_cons positions _ ranges'] at hscan
      exact ih hafter hwindow (fun k hk => (hpassed k hk).1) hscan hrest hlt

theorem cutFree_of_recorded (hd : d.Documented) (h : ChunkIndependent d chunk pick f) :
    CutFree d chunk f := by
  obtain ⟨p, hnew, hpositions⟩ := h.recorded
  obtain ⟨r', hscan⟩ := new_positions hnew
  intro j t ht n
  have hw : Window chunk f.bytes (bytesOf (f.tokens.drop 0) f.tail) 0 (.open f.bytes) :=
    ⟨rfl, rfl, rfl⟩
  exact cutFree_of_scan hd rfl hw (fun k hk => absurd hk (Nat.not_lt_zero k)) hscan hpositions
    (Nat.zero_le j) ht n

/-- The reader is independent of chunking exactly where no call of `read` ends inside of a number,
behind a part of it that is a number itself. -/
theorem chunkIndependent_iff (hd : d.Documented) (chunk pick : Nat → Nat) (f : JsonFile d) :
    ChunkIndependent d chunk pick f ↔ CutFree d chunk f :=
  ⟨cutFree_of_recorded hd, chunkIndependent_of_cutFree hd⟩

/-! ### Numbers without zeros -/

def isDigit (b : UInt8) : Bool := 49 ≤ b && b ≤ 57

def numberOf (text : List UInt8) : Json :=
  .number (.int (text.foldl (fun n b => 10 * n + (b.toNat - 48)) 0))

/-- The deserializer as far as files of such numbers need it. -/
def nonzeroDigits : StreamDeserializer where
  next bytes :=
    let rest := bytes.dropWhile isSpace
    let text := rest.takeWhile isDigit
    if rest = [] then .none
    else if text ≠ [] ∧ (rest.dropWhile isDigit).head?.all isSpace then
      .value (numberOf text) ((bytes.takeWhile isSpace).length + text.length)
    else .error
  Text t v := t ≠ [] ∧ (∀ b ∈ t, isDigit b = true) ∧ v = numberOf t

theorem not_isSpace_of_isDigit {b : UInt8} (h : isDigit b = true) : isSpace b = false := by
  cases hb : isSpace b with
  | false => rfl
  | true =>
    simp only [isSpace, Bool.or_eq_true, decide_eq_true_eq] at hb
    rcases hb with ((rfl | rfl) | rfl) | rfl <;> cases h

theorem documented_nonzeroDigits : nonzeroDigits.Documented where
  blank := by
    intro g hg
    have hrest : g.dropWhile isSpace = [] := List.dropWhile_eq_nil_iff.mpr hg
    simp only [nonzeroDigits, hrest, if_true]
  complete := by
    rintro g t _ r hg ⟨hne, hdigits, rfl⟩ hr
    obtain ⟨b, t, rfl⟩ := List.exists_cons_of_ne_nil hne
    have hb : isSpace b = false := not_isSpace_of_isDigit (hdigits b List.mem_cons_self)
    have hrest : (g ++ b :: t ++ r).dropWhile isSpace = b :: t ++ r := by
      rw [List.append_assoc, List.dropWhile_append_of_pos hg]
      simp [hb]
    have hgap : (g ++ b :: t ++ r).takeWhile isSpace = g := by
      rw [List.append_assoc, List.takeWhile_append_of_pos hg]
      simp [hb]
    have hfollow : r.takeWhile isDigit = [] ∧ (r.dropWhile isDigit).head?.all isSpace := by
      cases r with
      | nil => exact ⟨rfl, rfl⟩
      | cons c r =>
        have hc : isSpace c = true := hr c rfl
        have hc' : isDigit c = false := by
          by_contra h
          rw [not_isSpace_of_isDigit (by simpa using h)] at hc
          cases hc
        simp [hc, hc']
    have htext : (b :: t ++ r).takeWhile isDigit = b :: t := by
      rw [List.takeWhile_append_of_pos hdigits, hfollow.1, List.append_nil]
    have hdrop : (b :: t ++ r).dropWhile isDigit = r.dropWhile isDigit :=
      List.dropWhile_append_of_pos hdigits
    simp only [nonzeroDigits, hrest, htext, hdrop, hgap, hfollow.2]
    rfl
  incomplete := by
    rintro g t v p - ⟨-, hdigits, -⟩ hp hne hno
    exact absurd ⟨hne, fun b hb => hdigits b (hp.subset hb), rfl⟩ (hno (numberOf p))
  visible := by
    rintro t v ⟨hne, hdigits, -⟩
    obtain ⟨b, t, rfl⟩ := List.exists_cons_of_ne_nil hne
    exact ⟨b, rfl, not_isSpace_of_isDigit (hdigits b List.mem_cons_self)⟩

/-- The file "12 34". -/
def twoNumbers : JsonFile nonzeroDigits where
  tokens := [⟨[], [49, 50], numberOf [49, 50]⟩, ⟨[32], [51, 52], numberOf [51, 52]⟩]
  tail := []
  texts := by
    intro t ht
    simp only [List.mem_cons, List.not_mem_nil, or_false] at ht
    rcases ht with rfl | rfl
    · exact ⟨List.forall_mem_nil _, by simp, List.all_eq_true.mp rfl, rfl⟩
    · exact ⟨List.all_eq_true.mp rfl, by simp, List.all_eq_true.mp rfl, rfl⟩
  gaps := by simp
  blank := by simp [Blank]

/-- The file "1234". -/
def oneNumber : JsonFile nonzeroDigits where
  tokens := [⟨[], [49, 50, 51, 52], numberOf [49, 50, 51, 52]⟩]
  tail := []
  texts := by
    intro t ht
    obtain rfl := List.mem_singleton.mp ht
    exact ⟨List.forall_mem_nil _, by simp, List.all_eq_true.mp rfl, rfl⟩
  gaps := by simp
  blank := by simp [Blank]

/-- A read that ends behind the whitespace between the numbers. -/
theorem chunkIndependent_twoNumbers :
    ChunkIndependent nonzeroDigits (fun _ => 3) (fun _ => 0) twoNumbers := by
  refine (chunkIndependent_iff documented_nonzeroDigits (fun _ => 3) (fun _ => 0) twoNumbers).mpr ?_
  intro j t ht n
  rintro ⟨p, v, hp, hne, ⟨hpne, -⟩, hoffset⟩
  have hlt : p.length < t.text.length :=
    Nat.lt_of_le_of_ne hp.length_le fun h => hne (hp.eq_of_length h)
  have hpos := List.length_pos_iff.mpr hpne
  have hread : (fileAfter (fun _ => 3) twoNumbers.bytes n).offset ∈ [0, 3] ∨
      5 ≤ (fileAfter (fun _ => 3) twoNumbers.bytes n).offset := by
    rcases Nat.lt_or_ge n 2 with hn | hn
    · left
      obtain rfl | rfl : n = 0 ∨ n = 1 := by omega
      · decide
      · decide
    · right
      have hall : (fileAfter (fun _ => 3) twoNumbers.bytes 2).offset = 5 := by decide
      exact hall ▸ offset_le hn
  have hcut : (fileAfter (fun _ => 3) twoNumbers.bytes n).offset ∈ [1, 4] := by
    rw [hoffset]
    have hj : j < 2 := (List.getElem?_eq_some_iff.mp ht).1
    obtain rfl | rfl : j = 0 ∨ j = 1 := by omega
    · cases ht
      have hp : p.length = 1 := by
        change p.length < 2 at hlt
        omega
      rw [hp]
      decide
    · cases ht
      have hp : p.length = 1 := by
        change p.length < 2 at hlt
        omega
      rw [hp]
      decide
  simp only [List.mem_cons, List.not_mem_nil, or_false] at hread hcut
  omega

/-- A read that ends inside of a number: the reader gives 12 and 34. -/
theorem not_chunkIndependent_oneNumber : nonzeroDigits.Documented ∧
    ¬ ChunkIndependent nonzeroDigits (fun _ => 2) (fun _ => 0) oneNumber := by
  refine ⟨documented_nonzeroDigits, fun h => ?_⟩
  refine cutFree_of_recorded documented_nonzeroDigits h 0 _ rfl 1 ?_
  refine ⟨[49, 50], numberOf [49, 50], ?_, ?_, ⟨?_, ?_, rfl⟩, ?_⟩
  · exact ⟨[51, 52], rfl⟩
  · simp
  · simp
  · exact List.all_eq_true.mp rfl
  · rfl

end Pewpew.FileProvider
