import Pewpew.Yaml.Decoder

/-! The documents that the events of the decoder are nested like. -/
namespace Pewpew.Yaml

open SelectParser

/-- A node of a document without aliases. -/
inductive Tree where
  | scalar (s : String) (style : TScalarStyle) (tag : Option (String × String)) (m : Marker)
  | sequence (start : Marker) (items : List Tree) (stop : Marker)
  | mapping (start : Marker) (pairs : List (Tree × Tree)) (stop : Marker)

mutual

/-- The events of a node. -/
def Tree.events : Tree → List Delivered
  | .scalar s style tag m => [(.scalar s style tag, m)]
  | .sequence start items stop =>
    (.sequenceStart, start) :: (itemsEvents items ++ [(.sequenceEnd, stop)])
  | .mapping start pairs stop =>
    (.mappingStart, start) :: (pairsEvents pairs ++ [(.mappingEnd, stop)])

def itemsEvents : List Tree → List Delivered
  | [] => []
  | n :: ns => n.events ++ itemsEvents ns

def pairsEvents : List (Tree × Tree) → List Delivered
  | [] => []
  | p :: ps => pairEvents p ++ pairsEvents ps

def pairEvents : Tree × Tree → List Delivered
  | (k, v) => k.events ++ v.events

end

/-- What follows a node in a well-nested sequence of events: nothing after the root, and the end of
the sequence or mapping that the node is in. -/
inductive Follows : List Delivered → Prop where
  | root : Follows []
  | item (items : List Tree) (stop : Marker) {rest : List Delivered} (h : Follows rest) :
    Follows (itemsEvents items ++ (.sequenceEnd, stop) :: rest)
  | key (value : Tree) (pairs : List (Tree × Tree)) (stop : Marker) {rest : List Delivered}
    (h : Follows rest) :
    Follows (value.events ++ (pairsEvents pairs ++ (.mappingEnd, stop) :: rest))
  | value (pairs : List (Tree × Tree)) (stop : Marker) {rest : List Delivered} (h : Follows rest) :
    Follows (pairsEvents pairs ++ (.mappingEnd, stop) :: rest)

/-- An induction over a node, its items and its keys and values. -/
theorem Tree.nested {motive : Tree → Prop}
    (scalar : ∀ s style tag m, motive (.scalar s style tag m))
    (sequence : ∀ start items stop, (∀ n ∈ items, motive n) → motive (.sequence start items stop))
    (mapping : ∀ start pairs stop, (∀ p ∈ pairs, motive p.1 ∧ motive p.2) →
      motive (.mapping start pairs stop)) : ∀ n, motive n := by
  refine @Tree.rec motive (fun ns => ∀ n ∈ ns, motive n)
    (fun ps => ∀ p ∈ ps, motive p.1 ∧ motive p.2) (fun p => motive p.1 ∧ motive p.2)
    scalar sequence mapping ?_ ?_ ?_ ?_ ?_
  · simp
  · exact fun n ns hn hns => List.forall_mem_cons.mpr ⟨hn, hns⟩
  · simp
  · exact fun p ps hp hps => List.forall_mem_cons.mpr ⟨hp, hps⟩
  · exact fun k v hk hv => ⟨hk, hv⟩

end Pewpew.Yaml
