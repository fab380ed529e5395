import Mathlib.Data.List.Nodup
import Mathlib.Logic.Function.Basic

/-! The keys of a map, renamed one after another or all at once. -/
namespace Pewpew.Renaming

variable {K V : Type*} [DecidableEq K] {f : K → K} {m : K → Option V} {keys : List K} {x y : K}

/-- Move what is under the key `x` to its new name. -/
def move (f : K → K) (m : K → Option V) (x : K) : K → Option V :=
  match m x with
  | some v => Function.update (Function.update m x none) (f x) (some v)
  | none => m

/-- Rename the keys of a list, from its first to its last. -/
def after (f : K → K) (m : K → Option V) (keys : List K) : K → Option V := keys.foldl (move f) m

/-- A key that has got the name of one that comes later in the list is replaced by it, unless a
key that comes later still gets the same name. -/
def Kept (f : K → K) (keys : List K) : Prop :=
  ∀ pre x post, keys = pre ++ x :: post → (∃ k ∈ pre, f k = x) → ∃ l ∈ x :: post, f l = x

/-- A key is what the last of the keys that have got its name has left. -/
def Named (f : K → K) (keys : List K) (y : K) : Prop :=
  ∃ pre x post, keys = pre ++ x :: post ∧ f x = y ∧ y ∉ post

theorem move_of_some (h : m x ≠ none) :
    move f m x y = if y = f x then m x else if y = x then none else m y := by
  obtain ⟨v, hv⟩ := Option.ne_none_iff_exists'.mp h
  rw [move, hv]
  simp [Function.update_apply]

/-- The keys that are still to be renamed stay in the map. -/
theorem move_ne_none {z : K} (h : m x ≠ none) (hz : m z ≠ none) (hne : z ≠ x) :
    move f m x z ≠ none := by
  rw [move_of_some h]
  split
  · exact h
  · simpa [hne] using hz

theorem moved_ne_none (h : ∀ z ∈ x :: keys, m z ≠ none) (hx : x ∉ keys) :
    ∀ z ∈ keys, move f m x z ≠ none := by
  intro z hz
  refine move_ne_none (h x List.mem_cons_self) (h z (List.mem_cons_of_mem _ hz)) ?_
  rintro rfl
  exact hx hz

theorem after_append {more : List K} : after f m (keys ++ more) = after f (after f m keys) more :=
  List.foldl_append

theorem after_of_untouched (h : ∀ x ∈ keys, m x ≠ none) (hn : keys.Nodup) (hy : y ∉ keys)
    (hf : ∀ x ∈ keys, f x ≠ y) : after f m keys y = m y := by
  induction keys generalizing m with
  | nil => rfl
  | cons x keys ih =>
    obtain ⟨hx, hn⟩ := List.nodup_cons.mp hn
    have hm := h x List.mem_cons_self
    have hne : y ≠ x := fun heq => hy (heq ▸ List.mem_cons_self)
    have hnew : y ≠ f x := (hf x List.mem_cons_self).symm
    calc after f (move f m x) keys y
      _ = move f m x y := ih (moved_ne_none h hx) hn (fun hmem => hy (List.mem_cons_of_mem _ hmem))
        fun z hz => hf z (List.mem_cons_of_mem _ hz)
      _ = m y := by rw [move_of_some hm, if_neg hnew, if_neg hne]

omit [DecidableEq K] in
theorem named_cons : Named f (x :: keys) y ↔ (f x = y ∧ y ∉ keys) ∨ Named f keys y := by
  constructor
  · rintro ⟨pre, z, post, hkeys, hz, hy⟩
    cases pre with
    | nil =>
      obtain ⟨rfl, rfl⟩ := List.cons_eq_cons.mp hkeys
      exact .inl ⟨hz, hy⟩
    | cons w pre =>
      obtain ⟨rfl, rfl⟩ := List.cons_eq_cons.mp hkeys
      exact .inr ⟨pre, z, post, rfl, hz, hy⟩
  · rintro (⟨hx, hy⟩ | ⟨pre, z, post, rfl, hz, hy⟩)
    · exact ⟨[], x, keys, rfl, hx, hy⟩
    · exact ⟨x :: pre, z, post, rfl, hz, hy⟩

/-- The keys of the map in the end: those that have kept their names, and the last names given. -/
theorem after_ne_none_iff (h : ∀ x ∈ keys, m x ≠ none) (hn : keys.Nodup) :
    after f m keys y ≠ none ↔ (m y ≠ none ∧ y ∉ keys) ∨ Named f keys y := by
  induction keys generalizing m with
  | nil => simp [after, Named]
  | cons x keys ih =>
    obtain ⟨hx, hn⟩ := List.nodup_cons.mp hn
    have hm := h x List.mem_cons_self
    have hpresent : move f m x y ≠ none ↔ f x = y ∨ (y ≠ x ∧ m y ≠ none) := by
      rw [move_of_some hm]
      by_cases hnew : y = f x
      · simp [hnew, hm]
      · by_cases hy : y = x
        · subst hy
          simp [hnew, Ne.symm hnew]
        · simp [hnew, hy, Ne.symm hnew]
    calc after f (move f m x) keys y ≠ none
      _ ↔ (move f m x y ≠ none ∧ y ∉ keys) ∨ Named f keys y := ih (moved_ne_none h hx) hn
      _ ↔ (m y ≠ none ∧ y ∉ x :: keys) ∨ Named f (x :: keys) y := by
        rw [hpresent, named_cons, List.mem_cons]
        tauto

omit [DecidableEq K] in
/-- Of the keys with some property there is one after which no other has it. -/
theorem exists_last {p : K → Prop} (h : ∃ k ∈ keys, p k) :
    ∃ pre x post, keys = pre ++ x :: post ∧ p x ∧ ∀ l ∈ post, ¬ p l := by
  induction keys with
  | nil => simp at h
  | cons k keys ih =>
    by_cases hrest : ∃ l ∈ keys, p l
    · obtain ⟨pre, x, post, rfl, hx, hpost⟩ := ih hrest
      exact ⟨k :: pre, x, post, rfl, hx, hpost⟩
    · obtain ⟨l, hl, hp⟩ := h
      have hk : l = k := (List.mem_cons.mp hl).resolve_right fun hmem => hrest ⟨l, hmem, hp⟩
      exact ⟨[], k, keys, rfl, hk ▸ hp, fun l hl hp => hrest ⟨l, hl, hp⟩⟩

/-- Renaming one after another gives the names that renaming all at once gives exactly if it keeps
them. -/
theorem names_iff_kept (h : ∀ x ∈ keys, m x ≠ none) (hn : keys.Nodup)
    (hf : ∀ y, m y ≠ none → y ∉ keys → f y = y) :
    (∀ y, after f m keys y ≠ none ↔ ∃ k, m k ≠ none ∧ f k = y) ↔ Kept f keys := by
  simp only [after_ne_none_iff h hn]
  constructor
  · rintro hnames pre x post rfl ⟨k, hk, hkx⟩
    have hkey : m k ≠ none := h k (List.mem_append_left _ hk)
    rcases (hnames x).mpr ⟨k, hkey, hkx⟩ with ⟨-, hx⟩ | ⟨pre', l, post', heq, hl, hx⟩
    · simp at hx
    · refine ⟨l, ?_, hl⟩
      -- `x` is in front of the keys that follow the last key with the name `x`, or is this key
      rcases List.append_eq_append_iff.mp heq with ⟨as, rfl, hpost⟩ | ⟨as, rfl, hpost⟩
      · rw [hpost]
        exact List.mem_append_right _ List.mem_cons_self
      · cases as with
        | nil =>
          obtain ⟨rfl, rfl⟩ := List.cons_eq_cons.mp hpost
          exact List.mem_cons_self
        | cons a as =>
          obtain ⟨rfl, rfl⟩ := List.cons_eq_cons.mp hpost
          simp at hx
  · intro hkept y
    constructor
    · rintro (⟨hy, hmem⟩ | ⟨pre, x, post, rfl, hx, -⟩)
      · exact ⟨y, hy, hf y hy hmem⟩
      · exact ⟨x, h x (by simp), hx⟩
    · rintro ⟨k, hk, hky⟩
      by_cases hmem : k ∈ keys
      · obtain ⟨pre, x, post, heq, hx, hlast⟩ := exists_last (p := (f · = y)) ⟨k, hmem, hky⟩
        refine .inr ⟨pre, x, post, heq, hx, ?_⟩
        intro hy
        obtain ⟨pre', post', rfl⟩ := List.append_of_mem hy
        obtain ⟨l, hl, hly⟩ := hkept (pre ++ x :: pre') y post' (by simp [heq])
          ⟨x, by simp, hx⟩
        exact hlast l (by simpa using Or.inr (List.mem_cons.mp hl)) hly
      · have hkey : f k = k := hf k hk hmem
        obtain rfl : k = y := hkey.symm.trans hky
        exact .inl ⟨hk, hmem⟩

/-- Where no two keys get the same name, each name has what was under its key. -/
theorem after_eq (h : ∀ x ∈ keys, m x ≠ none) (hn : keys.Nodup)
    (hf : ∀ y, m y ≠ none → y ∉ keys → f y = y) (hkept : Kept f keys)
    (hinj : ∀ k l, m k ≠ none → m l ≠ none → f k = f l → k = l) {k : K} (hk : m k ≠ none) :
    after f m keys (f k) = m k := by
  by_cases hmem : k ∈ keys
  · obtain ⟨pre, post, rfl⟩ := List.append_of_mem hmem
    obtain ⟨hpre, hrest, hdisjoint⟩ := List.nodup_append.mp hn
    obtain ⟨hkpost, hpost⟩ := List.nodup_cons.mp hrest
    have hmpre : ∀ x ∈ pre, m x ≠ none := fun x hx => h x (List.mem_append_left _ hx)
    have hmpost : ∀ x ∈ post, m x ≠ none := fun x hx => h x (by simp [hx])
    have hold : after f m pre k = m k := by
      refine after_of_untouched hmpre hpre (fun hx => hdisjoint k hx k List.mem_cons_self rfl) ?_
      intro x hx hfx
      obtain ⟨l, hl, hlk⟩ := hkept pre k post rfl ⟨x, hx, hfx⟩
      have heq : l = x := hinj l x (h l (List.mem_append_right _ hl)) (hmpre x hx)
        (hlk.trans hfx.symm)
      exact hdisjoint x hx l hl heq.symm
    have hlater : ∀ x ∈ k :: post, after f m pre x ≠ none := by
      intro x hx
      refine (after_ne_none_iff hmpre hpre).mpr (.inl ⟨h x (List.mem_append_right _ hx), ?_⟩)
      exact fun hxpre => hdisjoint x hxpre x hx rfl
    have hnew : f k ∉ post := by
      intro hx
      obtain ⟨pre', post', rfl⟩ := List.append_of_mem hx
      obtain ⟨l, hl, hlk⟩ := hkept (pre ++ k :: pre') (f k) post' (by simp) ⟨k, by simp, rfl⟩
      have hlpost : l ∈ pre' ++ f k :: post' := List.mem_append_right _ hl
      exact hkpost (hinj l k (hmpost l hlpost) hk hlk ▸ hlpost)
    calc after f m (pre ++ k :: post) (f k)
      _ = after f (move f (after f m pre) k) post (f k) := by rw [after_append]; rfl
      _ = move f (after f m pre) k (f k) := by
        refine after_of_untouched (moved_ne_none hlater hkpost) hpost hnew fun x hx hfx => ?_
        exact hkpost (hinj x k (hmpost x hx) hk hfx ▸ hx)
      _ = after f m pre k := by rw [move_of_some (hlater k List.mem_cons_self), if_pos rfl]
      _ = m k := hold
  · have hkey : f k = k := hf k hk hmem
    rw [hkey]
    refine after_of_untouched h hn hmem fun x hx hfx => ?_
    exact hmem (hinj x k (h x hx) hk (hfx.trans hkey.symm) ▸ hx)

end Pewpew.Renaming
