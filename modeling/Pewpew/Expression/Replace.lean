import Pewpew.Library.Renaming
import Pewpew.Expression.Construction

/-! What `replace` makes of the strings and the keys in a value. -/
namespace Pewpew.SelectParser

variable {o p : Object} {k key name : String} {u v w : Json} {needle replacer s : String}

/-- A value `u` in a value, at any depth, or the value itself. -/
inductive Json.Part (u : Json) : Json → Prop
  | whole : Json.Part u u
  | element {v : Json} {a : List Json} (hv : v ∈ a) (h : Json.Part u v) : Json.Part u (.array a)
  | entry {k : String} {v : Json} {o : Object} (hv : (k, v) ∈ o) (h : Json.Part u v) :
    Json.Part u (.object o)

/-- No object in the value has two entries with one key. -/
def Json.UniqueKeys (v : Json) : Prop := ∀ o, Json.Part (.object o) v → (Object.keys o).Nodup

theorem uniqueKeys_object (hn : (Object.keys o).Nodup) (h : ∀ e ∈ o, e.2.UniqueKeys) :
    (Json.object o).UniqueKeys := by
  intro o' ho'
  cases ho' with
  | whole => exact hn
  | entry hv ho' => exact h _ hv o' ho'

theorem uniqueKeys_string : (Json.string s).UniqueKeys := by
  intro o ho
  cases ho

/-- The object `p` has the entries of `o` under new names, which are all given at once; the values
are only settled where no two keys get the same name. -/
structure Renamed (needle replacer : String) (o p : Object) : Prop where
  nodup : p.keys.Nodup
  names : ∀ name, name ∈ p.keys ↔ ∃ k ∈ o.keys, replaceText k needle replacer = name
  entries : (o.keys.map (replaceText · needle replacer)).Nodup →
    p.length = o.length ∧
      ∀ k v, (k, v) ∈ o → p.get (replaceText k needle replacer) = some (replaceIn needle replacer v)

/-- What has to become of a value, given what becomes of the values in it. -/
def Replaced (needle replacer : String) : Json → Json → Prop
  | .string s, w => w = .string (replaceText s needle replacer)
  | .array a, w => w = .array (a.map (replaceIn needle replacer))
  | .object o, w => ∃ p, w = .object p ∧ Renamed needle replacer o p
  | v, w => w = v

namespace Object

theorem keys_cons : keys ((k, v) :: o) = k :: o.keys := rfl

theorem get_ne_none_iff : o.get k ≠ none ↔ k ∈ o.keys := by
  rw [get, ← Option.isSome_iff_ne_none, List.lookup_isSome_iff, keys, List.mem_map]
  constructor
  · rintro ⟨e, he, hk⟩
    exact ⟨e, he, (beq_iff_eq.mp hk).symm⟩
  · rintro ⟨e, he, rfl⟩
    exact ⟨e, he, beq_self_eq_true _⟩

theorem get_eq_some_iff (hn : o.keys.Nodup) : o.get k = some v ↔ (k, v) ∈ o := by
  induction o with
  | nil => simp [get]
  | cons e o ih =>
    obtain ⟨k', w⟩ := e
    obtain ⟨hk', hn⟩ := List.nodup_cons.mp hn
    rw [get, List.lookup_cons, List.mem_cons]
    by_cases h : k = k'
    · subst h
      have habsent : (k, v) ∉ o := fun hmem => hk' (List.mem_map.mpr ⟨(k, v), hmem, rfl⟩)
      simp [habsent, eq_comm]
    · simpa [beq_false_of_ne h, h, get] using ih hn

/-- The removal puts the last entry in the place of the removed one. -/
theorem swapRemove_perm (hn : o.keys.Nodup) :
    (o.swapRemove key).Perm (o.filter (·.1 ≠ key)) := by
  induction o with
  | nil => rfl
  | cons e o ih =>
    obtain ⟨k, w⟩ := e
    obtain ⟨hk, hn⟩ := List.nodup_cons.mp hn
    rw [swapRemove]
    split
    · next heq =>
      subst heq
      have hall : o.filter (·.1 ≠ k) = o := by
        refine List.filter_eq_self.mpr fun e he => decide_eq_true fun heq => hk ?_
        exact List.mem_map.mpr ⟨e, he, heq⟩
      rw [List.filter_cons_of_neg (by simp), hall]
      split
      · next last hl =>
        obtain ⟨init, rfl⟩ := List.getLast?_eq_some_iff.mp hl
        simpa using (List.perm_append_singleton last init).symm
      · next hl => rw [List.getLast?_eq_none_iff.mp hl]
    · next hne =>
      rw [List.filter_cons_of_pos (by simpa using hne)]
      exact (ih hn).cons _

theorem nodup_swapRemove (hn : o.keys.Nodup) : (o.swapRemove key).keys.Nodup := by
  refine ((swapRemove_perm hn).map Prod.fst).nodup_iff.mpr ?_
  exact hn.sublist ((List.filter_sublist).map Prod.fst)

theorem get_swapRemove (hn : o.keys.Nodup) :
    (o.swapRemove key).get k = if k = key then none else o.get k := by
  ext v
  rw [get_eq_some_iff (nodup_swapRemove hn), (swapRemove_perm hn).mem_iff, List.mem_filter]
  split
  · next heq => simp [heq]
  · next hne => simp [hne, get_eq_some_iff hn]

theorem keys_insert : (o.insert key v).keys = if key ∈ o.keys then o.keys else o.keys ++ [key] := by
  induction o with
  | nil => rfl
  | cons e o ih =>
    obtain ⟨k, w⟩ := e
    rw [insert]
    split
    · next heq => simp [keys_cons, heq]
    · next hne =>
      rw [keys_cons, keys_cons, ih]
      by_cases hkey : key ∈ keys o
      · rw [if_pos hkey, if_pos (List.mem_cons_of_mem _ hkey)]
      · rw [if_neg hkey, if_neg (by simp [Ne.symm hne, hkey]), List.cons_append]

theorem nodup_insert (hn : o.keys.Nodup) : (o.insert key v).keys.Nodup := by
  rw [keys_insert]
  split
  · exact hn
  · next h => exact List.nodup_append.mpr ⟨hn, List.nodup_singleton _, by grind⟩

end Object

section Keys

variable {f : String → String} {found : List String}

theorem nodup_renameKey {change : String × String} (hn : o.keys.Nodup) :
    (renameKey o change).keys.Nodup := by
  rw [renameKey]
  split
  · exact Object.nodup_insert (Object.nodup_swapRemove hn)
  · exact hn

theorem get_renameKey (hn : o.keys.Nodup) :
    (renameKey o (k, f k)).get = Renaming.move f o.get k := by
  cases hv : o.get k with
  | none => simp only [renameKey, Renaming.move, hv]
  | some v =>
    simp only [renameKey, Renaming.move, hv]
    funext y
    rw [Function.update_apply, Function.update_apply]
    by_cases hy : y = f k
    · rw [if_pos hy, hy, Object.get_insert_self]
    · rw [if_neg hy, Object.get_insert_ne hy, Object.get_swapRemove hn]

theorem nodup_renameKeys (hn : o.keys.Nodup) :
    ((found.map fun k => (k, f k)).foldl renameKey o).keys.Nodup := by
  induction found generalizing o with
  | nil => exact hn
  | cons k found ih => exact ih (nodup_renameKey hn)

/-- The entries after the renames are those of the map, renamed in the same order. -/
theorem get_renameKeys (hn : o.keys.Nodup) :
    ((found.map fun k => (k, f k)).foldl renameKey o).get = Renaming.after f o.get found := by
  induction found generalizing o with
  | nil => rfl
  | cons k found ih =>
    calc ((found.map fun k => (k, f k)).foldl renameKey (renameKey o (k, f k))).get
      _ = Renaming.after f (renameKey o (k, f k)).get found := ih (nodup_renameKey hn)
      _ = Renaming.after f (Renaming.move f o.get k) found := by rw [get_renameKey hn]

theorem replaceInArray_eq {a : List Json} :
    replaceInArray needle replacer a = a.map (replaceIn needle replacer) := by
  induction a with
  | nil => rfl
  | cons v a ih => rw [replaceInArray, ih, List.map_cons]

theorem replaceInObject_eq :
    replaceInObject needle replacer o = o.map fun e => (e.1, replaceIn needle replacer e.2) := by
  induction o with
  | nil => rfl
  | cons e o ih => rw [replaceInObject, ih, List.map_cons, replaceInEntry]

theorem keys_replaceInObject : Object.keys (replaceInObject needle replacer o) = o.keys := by
  rw [replaceInObject_eq, Object.keys, Object.keys, List.map_map]
  rfl

theorem replaceChars_of_not_contains {needle replacer s : List Char}
    (h : containsChars needle s = false) : replaceChars needle replacer 0 s = s := by
  induction s with
  | nil => rfl
  | cons c s ih =>
    obtain ⟨hstart, hrest⟩ := Bool.or_eq_false_iff.mp h
    rw [replaceChars, hstart, ih hrest]
    rfl

theorem containsChars_nil (s : List Char) : containsChars [] s = true := by
  cases s <;> rfl

theorem replaceText_of_not_contains (h : containsText s needle = false) :
    replaceText s needle replacer = s := by
  have hne : needle ≠ "" := by
    rintro rfl
    rw [containsText, String.toList_empty, containsChars_nil] at h
    cases h
  rw [replaceText, if_neg hne, replaceChars_of_not_contains h, String.ofList_toList]

end Keys

/-- The keys of an object that `replace` has to rename. -/
def foundKeys (needle : String) (o : Object) : List String := o.keys.filter (containsText · needle)

theorem get_replaceInObject (hn : o.keys.Nodup) (hv : (k, v) ∈ o) :
    Object.get (replaceInObject needle replacer o) k = some (replaceIn needle replacer v) := by
  refine (Object.get_eq_some_iff ?_).mpr ?_
  · rwa [keys_replaceInObject]
  · rw [replaceInObject_eq]
    exact List.mem_map.mpr ⟨(k, v), hv, rfl⟩

theorem get_replaceInObject_ne_none :
    Object.get (replaceInObject needle replacer o) k ≠ none ↔ k ∈ o.keys := by
  rw [Object.get_ne_none_iff, keys_replaceInObject]

theorem replaceText_of_not_found (hk : k ∈ o.keys) (h : k ∉ foundKeys needle o) :
    replaceText k needle replacer = k := by
  refine replaceText_of_not_contains (Bool.eq_false_iff.mpr fun hc => h ?_)
  exact List.mem_filter.mpr ⟨hk, hc⟩

/-- The keys of an object are renamed as if at once exactly if the names are kept. -/
theorem renamed_iff (hn : o.keys.Nodup) :
    Renamed needle replacer o
      (((foundKeys needle o).map fun k => (k, replaceText k needle replacer)).foldl renameKey
        (replaceInObject needle replacer o)) ↔
      Renaming.Kept (replaceText · needle replacer) (foundKeys needle o) := by
  have hkeys : ∀ k, Object.get (replaceInObject needle replacer o) k ≠ none ↔ k ∈ o.keys :=
    fun _ => get_replaceInObject_ne_none
  have hfound : ∀ k ∈ foundKeys needle o,
      Object.get (replaceInObject needle replacer o) k ≠ none :=
    fun k hk => (hkeys k).mpr (List.mem_of_mem_filter hk)
  have hother : ∀ k, Object.get (replaceInObject needle replacer o) k ≠ none →
      k ∉ foundKeys needle o → replaceText k needle replacer = k :=
    fun k hk hnot => replaceText_of_not_found ((hkeys k).mp hk) hnot
  have hnfound : (foundKeys needle o).Nodup := hn.filter _
  have hnew : (Object.keys (replaceInObject needle replacer o)).Nodup := by
    rwa [keys_replaceInObject]
  have hnames := Renaming.names_iff_kept hfound hnfound hother
  simp only [hkeys] at hnames
  have hget : (((foundKeys needle o).map fun k => (k, replaceText k needle replacer)).foldl
      renameKey (replaceInObject needle replacer o)).get =
        Renaming.after (replaceText · needle replacer)
        (Object.get (replaceInObject needle replacer o)) (foundKeys needle o) := get_renameKeys hnew
  rw [← hget] at hnames
  simp only [Object.get_ne_none_iff] at hnames
  constructor
  · intro h
    exact hnames.mp h.names
  · intro hkept
    refine ⟨nodup_renameKeys hnew, hnames.mpr hkept, fun hdistinct => ?_⟩
    have hperm := (List.perm_ext_iff_of_nodup (nodup_renameKeys hnew) hdistinct).mpr
      fun name => (hnames.mpr hkept name).trans List.mem_map.symm
    refine ⟨by simpa [Object.keys] using hperm.length_eq, fun k v hv => ?_⟩
    have hk : k ∈ o.keys := List.mem_map.mpr ⟨(k, v), hv, rfl⟩
    rw [hget, Renaming.after_eq hfound hnfound hother hkept ?_ ((hkeys k).mpr hk)]
    · exact get_replaceInObject hn hv
    · intro k l hk hl
      exact List.inj_on_of_nodup_map hdistinct ((hkeys k).mp hk) ((hkeys l).mp hl)

/-- Replacing goes right in every part of a value. -/
def ReplacedWithin (needle replacer : String) (v : Json) : Prop :=
  ∀ u, Json.Part u v → Replaced needle replacer u (replaceIn needle replacer u)

/-- Replacing goes right in a value, at any depth, exactly if in no object a key gets the name of
one that is still to be renamed, unless that name is given again later. -/
theorem replaceIn_iff (needle replacer : String) (v : Json) (h : v.UniqueKeys) :
    ReplacedWithin needle replacer v ↔
      ∀ o, Json.Part (.object o) v →
        Renaming.Kept (replaceText · needle replacer) (foundKeys needle o) := by
  constructor
  · intro hall o ho
    obtain ⟨p, hp, hrenamed⟩ := hall _ ho
    rw [replaceIn, Json.object.injEq] at hp
    exact (renamed_iff (h o ho)).mp (hp ▸ hrenamed)
  · intro hkept u hu
    cases u with
    | object o => exact ⟨_, by rw [replaceIn]; rfl, (renamed_iff (h o hu)).mpr (hkept o hu)⟩
    | array a => rw [Replaced, replaceIn, replaceInArray_eq]
    | string s =>
      rw [Replaced, replaceIn]
      split
      · rfl
      · next hc => rw [replaceText_of_not_contains (Bool.eq_false_iff.mpr hc)]
    | null => rw [Replaced, replaceIn] <;> simp
    | bool b => rw [Replaced, replaceIn] <;> simp
    | number n => rw [Replaced, replaceIn] <;> simp

/-- An object with one key in which the needle occurs is renamed as it should be. -/
theorem replaceIn_iff_ab :
    ReplacedWithin "a" "x" (.object [("ab", .string "a"), ("c", .string "b")]) := by
  refine (replaceIn_iff "a" "x" _ ?_).mpr ?_
  · refine uniqueKeys_object (by decide) fun e he => ?_
    rcases List.mem_pair.mp he with rfl | rfl
    · exact uniqueKeys_string
    · exact uniqueKeys_string
  · rintro o ho pre name post hsplit ⟨k, hk, -⟩
    cases ho with
    | whole =>
      have hlength := congrArg List.length hsplit
      have hfound : (foundKeys "a" [("ab", .string "a"), ("c", .string "b")]).length = 1 := rfl
      have hpre := List.length_pos_of_mem hk
      simp only [hfound, List.length_append, List.length_cons] at hlength
      omega
    | entry hv ho =>
      rcases List.mem_pair.mp hv with h | h <;> · cases h; cases ho

/-- The key `a` gets the name of `aa`, whose value is lost, before `aa` is renamed. -/
theorem not_replaceIn : ¬ ∀ (needle replacer : String) (v : Json), v.UniqueKeys →
    ReplacedWithin needle replacer v := by
  intro h
  have hunique : (Json.object [("a", .ofNat 1), ("aa", .ofNat 2)]).UniqueKeys := by
    refine uniqueKeys_object (by decide) fun e he o ho => ?_
    rcases List.mem_pair.mp he with rfl | rfl <;> cases ho
  obtain ⟨p, hp, hrenamed⟩ := h "a" "aa" _ hunique _ .whole
  have hresult : replaceIn "a" "aa" (.object [("a", .ofNat 1), ("aa", .ofNat 2)]) =
      .object [("aaaa", .ofNat 1)] := rfl
  obtain rfl : [("aaaa", .ofNat 1)] = p := Json.object.inj (hresult.symm.trans hp)
  exact absurd (hrenamed.entries (by decide)).1 (by decide)

end Pewpew.SelectParser
