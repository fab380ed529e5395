import Mathlib.Data.List.Induction
import Mathlib.Order.Basic

/-! Operator trees under a precedence: each sequence of operands and operators has one. -/
namespace Pewpew.Precedence

variable {α β ω : Type*}

inductive Tree (α ω : Type*) where
  | leaf (a : α)
  | node (l : Tree α ω) (o : ω) (r : Tree α ω)

namespace Tree

/-- The first operand in order. -/
def first : Tree α ω → α
  | leaf a => a
  | node l _ _ => l.first

/-- The operators in order, each with the operand after it. -/
def rest : Tree α ω → List (ω × α)
  | leaf _ => []
  | node l o r => l.rest ++ (o, r.first) :: r.rest

def map (f : α → β) : Tree α ω → Tree β ω
  | leaf a => leaf (f a)
  | node l o r => node (l.map f) o (r.map f)

/-- The value of a tree, from the values of its operands. -/
def fold (f : ω → α → α → α) : Tree α ω → α
  | leaf a => a
  | node l o r => f o (l.fold f) (r.fold f)

variable {prec : ω → Nat} {n : Nat} {t s l r : Tree α ω} {o : ω} {a : α}

/-- The operator at the root, if any, binds at least as tightly as `n`. -/
def AtLeast (prec : ω → Nat) (n : Nat) : Tree α ω → Prop
  | leaf _ => True
  | node _ o _ => n ≤ prec o

/-- Operators that bind tighter stand below, and those of one level associate to the left. -/
def Conventional (prec : ω → Nat) : Tree α ω → Prop
  | leaf _ => True
  | node l o r =>
    l.Conventional prec ∧ l.AtLeast prec (prec o) ∧ r.Conventional prec ∧
      r.AtLeast prec (prec o + 1)

/-- All operators of a conventional tree bind as tightly as its root does. -/
theorem Conventional.le_prec (ht : t.Conventional prec) (hn : t.AtLeast prec n) :
    ∀ p ∈ t.rest, n ≤ prec p.1 := by
  induction t generalizing n with
  | leaf a => simp [rest]
  | node l o r ihl ihr =>
    obtain ⟨hl, hlo, hr, hro⟩ := ht
    intro p hp
    rcases List.mem_append.mp hp with hp | hp
    · exact Nat.le_trans hn (ihl hl hlo p hp)
    · rcases List.mem_cons.mp hp with rfl | hp
      · exact hn
      · exact Nat.le_trans hn (Nat.le_of_succ_le (ihr hr hro p hp))

theorem atLeast_of_rest (h : ∀ p ∈ t.rest, n ≤ prec p.1) : t.AtLeast prec n := by
  cases t with
  | leaf a => trivial
  | node l o r => exact h (o, r.first) (by simp [rest])

/-- The last of the loosest operators of a sequence is at one place. -/
theorem split_unique {xs ys xs' ys' : List (ω × α)} {p p' : ω × α}
    (hxs : ∀ q ∈ xs, prec p.1 ≤ prec q.1) (hys : ∀ q ∈ ys, prec p.1 < prec q.1)
    (hxs' : ∀ q ∈ xs', prec p'.1 ≤ prec q.1) (hys' : ∀ q ∈ ys', prec p'.1 < prec q.1)
    (h : xs ++ p :: ys = xs' ++ p' :: ys') : xs = xs' ∧ p = p' ∧ ys = ys' := by
  rcases List.append_eq_append_iff.mp h with ⟨zs, hx, hy⟩ | ⟨zs, hx, hy⟩
  · cases zs with
    | nil => simp_all
    | cons z zs =>
      obtain ⟨rfl, rfl⟩ := List.cons.inj hy
      have h₁ := hxs' p (by simp [hx])
      have h₂ := hys p' (by simp)
      omega
  · cases zs with
    | nil => simp_all
    | cons z zs =>
      obtain ⟨rfl, rfl⟩ := List.cons.inj hy
      have h₁ := hxs p' (by simp [hx])
      have h₂ := hys' p (by simp)
      omega

/-- A sequence has at most one conventional tree. -/
theorem Conventional.unique (ht : t.Conventional prec) (hs : s.Conventional prec)
    (hfirst : t.first = s.first) (hrest : t.rest = s.rest) : t = s := by
  induction t generalizing s with
  | leaf a =>
    cases s with
    | leaf b => simpa [first] using hfirst
    | node l o r => simp [rest] at hrest
  | node l o r ihl ihr =>
    cases s with
    | leaf b => simp [rest] at hrest
    | node l' o' r' =>
      obtain ⟨hl, hlo, hr, hro⟩ := ht
      obtain ⟨hl', hlo', hr', hro'⟩ := hs
      obtain ⟨h₁, h₂, h₃⟩ := split_unique (hl.le_prec hlo) (hr.le_prec hro) (hl'.le_prec hlo')
        (hr'.le_prec hro') hrest
      obtain ⟨rfl, h₄⟩ := Prod.mk.inj h₂
      rw [ihl hl hl' hfirst h₁, ihr hr hr' h₄ h₃]

/-- One more operator and operand at the end of the sequence. -/
def push (prec : ω → Nat) (o : ω) (b : α) : Tree α ω → Tree α ω
  | leaf a => node (leaf a) o (leaf b)
  | node l o' r =>
    if prec o' < prec o then node l o' (r.push prec o b) else node (node l o' r) o (leaf b)

/-- The conventional tree of a sequence. -/
def conventional (prec : ω → Nat) (a : α) (rest : List (ω × α)) : Tree α ω :=
  rest.foldl (fun t p => t.push prec p.1 p.2) (leaf a)

@[simp] theorem push_first {b : α} : (t.push prec o b).first = t.first := by
  cases t with
  | leaf a => rfl
  | node l o' r =>
    rw [push]
    split <;> rfl

@[simp] theorem push_rest {b : α} : (t.push prec o b).rest = t.rest ++ [(o, b)] := by
  induction t with
  | leaf a => rfl
  | node l o' r _ ihr =>
    rw [push]
    split
    · simp [rest, ihr]
    · simp [rest, first]

theorem push_atLeast {b : α} (h : t.AtLeast prec n) (ho : n ≤ prec o) :
    (t.push prec o b).AtLeast prec n := by
  cases t with
  | leaf a => exact ho
  | node l o' r =>
    rw [push]
    split
    · exact h
    · exact ho

theorem push_conventional {b : α} (h : t.Conventional prec) :
    (t.push prec o b).Conventional prec := by
  induction t with
  | leaf a => exact ⟨trivial, trivial, trivial, trivial⟩
  | node l o' r _ ihr =>
    obtain ⟨hl, hlo, hr, hro⟩ := h
    rw [push]
    split
    · next hlt => exact ⟨hl, hlo, ihr hr, push_atLeast hro hlt⟩
    · next hge => exact ⟨⟨hl, hlo, hr, hro⟩, Nat.le_of_not_lt hge, trivial, trivial⟩

theorem conventional_spec (a : α) (rest : List (ω × α)) :
    (conventional prec a rest).Conventional prec ∧ (conventional prec a rest).first = a ∧
      (conventional prec a rest).rest = rest := by
  induction rest using List.reverseRecOn with
  | nil => exact ⟨trivial, rfl, rfl⟩
  | append_singleton rest p ih =>
    obtain ⟨hc, hf, hr⟩ := ih
    have : conventional prec a (rest ++ [p]) = (conventional prec a rest).push prec p.1 p.2 := by
      simp [conventional]
    rw [this]
    exact ⟨push_conventional hc, by rw [push_first, hf], by rw [push_rest, hr]⟩

/-- A conventional tree is the one of its sequence. -/
theorem Conventional.eq_conventional (h : t.Conventional prec) :
    t = conventional prec t.first t.rest := by
  obtain ⟨hc, hf, hr⟩ := @conventional_spec _ _ prec t.first t.rest
  exact h.unique hc hf.symm hr.symm

theorem push_map {b : α} {f : α → β} : (t.push prec o b).map f = (t.map f).push prec o (f b) := by
  induction t with
  | leaf a => rfl
  | node l o' r _ ihr =>
    simp only [push, map]
    split <;> simp [map, ihr]

theorem conventional_map {f : α → β} (rest : List (ω × α)) :
    (conventional prec a rest).map f =
      conventional prec (f a) (rest.map fun p => (p.1, f p.2)) := by
  induction rest using List.reverseRecOn with
  | nil => rfl
  | append_singleton rest p ih =>
    simp only [conventional, List.foldl_append, List.map_append] at ih ⊢
    simp [push_map, ih]

/-- Trees of one shape with related operands. -/
inductive Rel (R : α → β → Prop) : Tree α ω → Tree β ω → Prop
  | leaf {a b} (h : R a b) : Rel R (leaf a) (leaf b)
  | node {l l' o r r'} (hl : Rel R l l') (hr : Rel R r r') : Rel R (node l o r) (node l' o r')

theorem Rel.push {R : α → β → Prop} {t : Tree α ω} {u : Tree β ω} {b : α} {c : β}
    (h : Rel R t u) (hb : R b c) : Rel R (t.push prec o b) (u.push prec o c) := by
  induction h with
  | leaf h => exact .node (.leaf h) (.leaf hb)
  | node hl hr _ ihr =>
    rw [Tree.push, Tree.push]
    split
    · exact .node hl ihr
    · exact .node (.node hl hr) (.leaf hb)

theorem Rel.conventional {R : α → β → Prop} {a : α} {b : β} {rest : List (ω × α)}
    {rest' : List (ω × β)} (h : R a b)
    (hrest : List.Forall₂ (fun p q => p.1 = q.1 ∧ R p.2 q.2) rest rest') :
    Rel R (conventional prec a rest) (conventional prec b rest') := by
  rw [Tree.conventional, Tree.conventional]
  have : ∀ {t : Tree α ω} {u : Tree β ω}, Rel R t u →
      Rel R (rest.foldl (fun t p => t.push prec p.1 p.2) t)
        (rest'.foldl (fun t p => t.push prec p.1 p.2) u) := by
    induction hrest with
    | nil => exact id
    | @cons p q _ _ hp _ ih =>
      obtain ⟨o, a⟩ := p
      obtain ⟨o', b⟩ := q
      obtain ⟨rfl, hab⟩ := hp
      intro t u htu
      exact ih (htu.push hab)
  exact this (.leaf h)

/-- An operation that preserves a relation preserves it from the operands to the value. -/
theorem Rel.fold {R : α → α → Prop} {f : ω → α → α → α} {t u : Tree α ω}
    (hf : ∀ o a a' b b', R a a' → R b b' → R (f o a b) (f o a' b')) (h : Rel R t u) :
    R (t.fold f) (u.fold f) := by
  induction h with
  | leaf h => exact h
  | node _ _ ihl ihr => exact hf _ _ _ _ _ ihl ihr

end Tree

end Pewpew.Precedence
