import Pewpew.Expression.FunctionCall
import Pewpew.Expression.IntoStream
import Pewpew.Expression.Iterate
import Pewpew.Library.PercentEncoding

/-! The encodings of `encode`: which characters are escaped, and which texts can be decoded. -/
namespace Pewpew.SelectParser

open Polling PercentEncoding

/-- A set of ASCII characters that are to be encoded. -/
abbrev AsciiSet := UInt8 → Bool

def AsciiSet.add (set : AsciiSet) (c : Char) : AsciiSet := fun b => b.toNat == c.toNat || set b

def AsciiSet.addAll (set : AsciiSet) (cs : List Char) : AsciiSet := cs.foldl AsciiSet.add set

/-- `percent_encoding::CONTROLS`. -/
def controls : AsciiSet := fun b => b.toNat < 32 || b.toNat == 127

/-- `percent_encoding::NON_ALPHANUMERIC`. -/
def nonAlphanumericSet : AsciiSet := fun b =>
  b.toNat < 128 && !((48 ≤ b.toNat && b.toNat ≤ 57) || (65 ≤ b.toNat && b.toNat ≤ 90) ||
    (97 ≤ b.toNat && b.toNat ≤ 122))

def queryEncodeSet : AsciiSet := controls.addAll [' ', '"', '#', '<', '>']

def defaultEncodeSet : AsciiSet := queryEncodeSet.addAll ['\x60', '?', '\x7b', '\x7d']

def pathSegmentEncodeSet : AsciiSet := defaultEncodeSet.addAll ['%', '/']

def userinfoEncodeSet : AsciiSet :=
  defaultEncodeSet.addAll ['/', ':', ';', '=', '@', '[', '\\', ']', '^', '|']

/-- The set that `Encoding::encode` passes on. -/
def Encoding.set : Encoding → Option AsciiSet
  | .base64 => none
  | .percentSimple => some controls
  | .percentQuery => some queryEncodeSet
  | .percent => some defaultEncodeSet
  | .percentPath => some pathSegmentEncodeSet
  | .percentUserinfo => some userinfoEncodeSet
  | .nonAlphanumeric => some nonAlphanumericSet

/-- Bytes that are not ASCII are always encoded. -/
def AsciiSet.reserved (set : AsciiSet) (b : UInt8) : Bool := 128 ≤ b.toNat || set b

def utf8 (s : String) : List UInt8 := s.toList.flatMap String.utf8EncodeChar

/-- What `utf8_percent_encode` does. -/
def PercentEncodes (x : Externals) : Prop :=
  ∀ e set, Encoding.set e = some set → ∀ s, utf8 (x.encode e s) = encode set.reserved (utf8 s)

/-- The percent sign itself is encoded. -/
def Encoding.reversible : Encoding → Bool
  | .percentPath | .nonAlphanumeric => true
  | .base64 | .percentSimple | .percentQuery | .percent | .percentUserinfo => false

variable {x : Externals} {set : AsciiSet} {e : Encoding} {v w : Json} {arg : ValueOrExpression}

theorem isHex_range {b : UInt8} (h : isHex b = true) :
    (48 ≤ b.toNat ∧ b.toNat ≤ 57) ∨ (65 ≤ b.toNat ∧ b.toNat ≤ 70) ∨
      97 ≤ b.toNat ∧ b.toNat ≤ 102 := by
  unfold isHex hexValue at h
  split at h
  · next hr => exact .inl hr
  · split at h
    · next hr => exact .inr (.inl hr)
    · split at h
      · next hr => exact .inr (.inr hr)
      · cases h

/-- No encoding encodes a hexadecimal digit. -/
theorem not_reserved_of_isHex (hset : e.set = some set) {b : UInt8} (h : isHex b = true) :
    set.reserved b = false := by
  have hrange := isHex_range h
  have hlt : b.toNat < 128 := by omega
  cases e <;> cases hset <;>
    simp only [AsciiSet.reserved, controls, nonAlphanumericSet, queryEncodeSet, defaultEncodeSet,
      pathSegmentEncodeSet, userinfoEncodeSet, AsciiSet.addAll, AsciiSet.add, List.foldl] <;>
    simp <;> omega

theorem reserved_percent (hset : e.set = some set) : set.reserved percent = e.reversible := by
  cases e <;> cases hset <;> rfl

/-- What `encode` makes of a value: a text that has none of the characters of the set but percent
signs. It is decoded to the text of the value where the percent sign is encoded, too, or the text of
the value has no escapes already. -/
def PercentEncoded (x : Externals) (e : Encoding) (set : AsciiSet) (v w : Json) : Prop :=
  ∃ text, w = .string text ∧
    (decode (utf8 text) = utf8 (Json.valueToString x v) ↔
      e.reversible = true ∨ ¬ HasEscape (utf8 (Json.valueToString x v))) ∧
    ∀ b ∈ utf8 text, set.reserved b = true → b = percent

theorem percentEncoded_encode (hx : PercentEncodes x) (hset : e.set = some set) (v : Json) :
    PercentEncoded x e set v (.string (x.encode e (Json.valueToString x v))) := by
  have hhex := fun b => not_reserved_of_isHex hset (b := b)
  refine ⟨_, rfl, ?_, fun b hb hres => ?_⟩
  · rw [hx e set hset, decode_encode_iff hhex, reserved_percent hset]
  · rw [hx e set hset] at hb
    exact reserved_of_mem_encode hhex hb hres

section Calls

variable {Ar : Type} {marker : Marker} {name : String}

/-- A call of `encode`, however it is evaluated: of a constant when it is parsed, of data, or of the
items of a stream. -/
theorem encode_percent (hx : PercentEncodes x) (hset : e.set = some set)
    (hname : Encoding.ofText name = some e) (z : Zip) (draws : Nat → Externals)
    (providers : String → Option (PollStream (Item Json Ar))) (arg : ValueOrExpression) :
    (∀ v, ∃ w, Encode.new x marker [.value (.json v), .value (.json (.string name))] =
      .ok (.inr w) ∧ PercentEncoded x e set v w) ∧
    (∀ d noErr forEach w, (FunctionCall.encode arg e).evaluate x d noErr forEach = .ok w →
      ∃ v, arg.evaluate x d noErr forEach = .ok v ∧ PercentEncoded x e set v.val w.val) ∧
    ∀ noErr s, (FunctionCall.encode arg e).intoStream z x draws providers noErr = some s →
      ∃ t, arg.intoStream z x draws providers noErr = some t ∧
        ∀ n w ars, s.get n = .ready (some (.ok (w, ars))) →
          ∃ v, t.get n = .ready (some (.ok (v, ars))) ∧ PercentEncoded x e set v w := by
  refine ⟨fun v => ?_, fun d noErr forEach w h => ?_, fun noErr s h => ?_⟩
  · refine ⟨_, ?_, percentEncoded_encode hx hset v⟩
    rw [Encode.new, hname]
    rfl
  · rw [FunctionCall.evaluate] at h
    obtain ⟨v, hv, rfl⟩ := Fallible.map_ok.mp h
    exact ⟨v, hv, percentEncoded_encode hx hset v.val⟩
  · rw [FunctionCall.intoStream] at h
    obtain ⟨t, ht, rfl⟩ := Option.map_eq_some_iff.mp h
    refine ⟨t, ht, fun n w ars hn => ?_⟩
    rw [mapOk, mapItems, Stream'.get_map] at hn
    cases hitem : t.get n with
    | pending =>
      rw [hitem] at hn
      cases hn
    | ready i =>
      rw [hitem] at hn
      obtain ⟨i', rfl, hi⟩ := Option.map_eq_some_iff.mp (Poll.ready.inj hn)
      obtain ⟨⟨v, ars'⟩, rfl, heq⟩ := Fallible.map_ok.mp hi
      cases heq
      exact ⟨v, rfl, percentEncoded_encode hx hset v⟩

end Calls

/-- Externals that encode. -/
def percentExternals : Externals where
  __ := Externals.plain
  encode e s := e.set.elim s fun set =>
    .ofList ((encode set.reserved (utf8 s)).map Char.ofUInt8)

theorem utf8_ofList_ascii {bs : List UInt8} (h : ∀ b ∈ bs, b.toNat < 128) :
    utf8 (.ofList (bs.map Char.ofUInt8)) = bs := by
  rw [utf8, String.toList_ofList, List.flatMap_map]
  induction bs with
  | nil => rfl
  | cons b bs ih =>
    obtain ⟨hb, hbs⟩ := List.forall_mem_cons.mp h
    have hsize : (Char.ofUInt8 b).utf8Size = 1 := by
      rw [Char.utf8Size_eq_one_iff, UInt32.le_iff_toNat_le]
      have hval : (Char.ofUInt8 b).val.toNat = b.toNat := UInt8.toNat_toUInt32 b
      have hmax : (127 : UInt32).toNat = 127 := rfl
      omega
    have hval : (Char.ofUInt8 b).val.toUInt8 = b := UInt8.toUInt8_toUInt32 b
    rw [List.flatMap_cons, ih hbs, String.utf8EncodeChar_eq_singleton hsize, hval]
    rfl

theorem percentEncodes_percentExternals : PercentEncodes percentExternals := by
  intro e set hset s
  have hascii : ∀ b ∈ encode set.reserved (utf8 s), b.toNat < 128 := by
    intro b hb
    by_contra hlarge
    have hres : set.reserved b = true := by
      simp only [AsciiSet.reserved, Bool.or_eq_true, decide_eq_true_eq]
      omega
    obtain rfl := reserved_of_mem_encode (fun b => not_reserved_of_isHex hset) hb hres
    exact hlarge (by decide)
  simp only [percentExternals, hset, Option.elim_some, utf8_ofList_ascii hascii]

/-- A path segment that has an escape comes back: its percent sign is encoded. -/
theorem encode_percent_path : ∃ w, Encode.new percentExternals ⟨1, 1⟩
      [.value (.json (.string "a%2Fb")), .value (.json (.string "percent-path"))] = .ok (.inr w) ∧
    PercentEncoded percentExternals .percentPath pathSegmentEncodeSet (.string "a%2Fb") w :=
  (encode_percent percentEncodes_percentExternals rfl rfl queueZip (fun _ => percentExternals)
    (fun _ => (none : Option (PollStream (Item Json Unit)))) (.value (.json .null))).1 _

end Pewpew.SelectParser
