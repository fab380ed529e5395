import Pewpew.Expression.Json
import Pewpew.Providers.FileProvider
import Mathlib.Data.List.Infix

/-! The reader of a file of JSON values: a window of the file that grows until it holds a value. -/
namespace Pewpew.FileProvider

open SelectParser

/-- What `StreamDeserializer::next` answers on a slice: a value with the offset behind it, an error
because the slice ends, another error, or the end of the stream. -/
inductive Next where
  | value (v : Json) (byteOffset : Nat)
  | eof
  | error
  | none

/-- The deserializer, and the texts of the values. -/
structure StreamDeserializer where
  next : List UInt8 → Next
  Text : List UInt8 → Json → Prop

structure JsonReader where
  buffer : List UInt8
  position : Nat
  reader : File

/-- One more call of `read`, whose bytes go behind those of the buffer. -/
def JsonReader.refill (chunk : Nat → Nat) (s : JsonReader) : JsonReader :=
  let (bytes, reader) := s.reader.read chunk kb8
  { s with buffer := s.buffer ++ bytes, reader := reader }

theorem JsonReader.length_refill {chunk : Nat → Nat} {s : JsonReader}
    (hbytes : (s.reader.read chunk kb8).1 ≠ []) :
    (s.refill chunk).reader.unread.length < s.reader.unread.length := by
  have hread := congrArg List.length (File.unread_read chunk kb8 s.reader)
  have hpos := List.length_pos_iff.mpr hbytes
  rw [List.length_append] at hread
  change (s.reader.read chunk kb8).2.unread.length < s.reader.unread.length
  omega

/-- The loop of `get_value`. -/
def JsonReader.loop (d : StreamDeserializer) (chunk : Nat → Nat) (position : Nat) (s : JsonReader) :
    Option (Got Json × JsonReader) :=
  match d.next s.buffer with
  | .value v length =>
    if length ≤ s.buffer.length then
      some (some (.ok (v, position, length)),
        { s with buffer := s.buffer.drop length, position := s.position + length })
    else none
  | .error => some (some (.error .invalidData), s)
  | .eof | .none =>
    if (s.reader.read chunk kb8).1 = [] then
      some (none, { s with reader := (s.reader.read chunk kb8).2 })
    else (s.refill chunk).loop d chunk position
termination_by s.reader.unread.length
decreasing_by
  all_goals
    rename_i hbytes
    exact JsonReader.length_refill hbytes

/-- `get_value`; a size hint makes it read so many bytes first. -/
def JsonReader.getValue (d : StreamDeserializer) (chunk : Nat → Nat) (sizeHint : Option Nat)
    (s : JsonReader) : Option (Got Json × JsonReader) :=
  let position := s.position
  match sizeHint with
  | some hint =>
    let s := { s with position := s.position + hint }
    match s.reader.readExact hint with
    | .error e => some (some (.error e), s)
    | .ok (bytes, reader) =>
      { s with buffer := s.buffer ++ bytes, reader := reader }.loop d chunk position
  | none => s.loop d chunk position

def JsonReader.seek (pos : Nat) (s : JsonReader) : JsonReader :=
  { s with buffer := [], reader := { s.reader with offset := pos }, position := pos }

def JsonReader.access (d : StreamDeserializer) (chunk : Nat → Nat) : Access JsonReader Json :=
  ⟨JsonReader.getValue d chunk, JsonReader.seek⟩

/-- The reader of `JsonReader::new` before it looks at the file. -/
def JsonReader.open (content : List UInt8) : JsonReader := ⟨[], 0, .open content⟩

/-! ### Files of values -/

def isSpace (b : UInt8) : Bool := b = 32 || b = 9 || b = 10 || b = 13

def Blank (g : List UInt8) : Prop := ∀ b ∈ g, isSpace b = true

/-- What may follow a value: whitespace, or the end. -/
def Separated (r : List UInt8) : Prop := ∀ b ∈ r.head?, isSpace b = true

/-- What is relied on: on a slice the deserializer gives a complete value, also where the slice
ends with it, and it reports an error of the end inside an incomplete one. -/
structure StreamDeserializer.Documented (d : StreamDeserializer) : Prop where
  blank : ∀ g, Blank g → d.next g = .none
  complete : ∀ g t v r, Blank g → d.Text t v → Separated r →
    d.next (g ++ t ++ r) = .value v (g.length + t.length)
  incomplete : ∀ g t v p, Blank g → d.Text t v → p <+: t → p ≠ [] → (∀ w, ¬ d.Text p w) →
    d.next (g ++ p) = .eof
  visible : ∀ t v, d.Text t v → ∃ b ∈ t.head?, isSpace b = false

/-- The text of a value after whitespace. -/
structure Token where
  gap : List UInt8
  text : List UInt8
  value : Json

def bytesOf (tokens : List Token) (tail : List UInt8) : List UInt8 :=
  tokens.flatMap (fun t => t.gap ++ t.text) ++ tail

/-- A sequence of values that whitespace separates. -/
structure JsonFile (d : StreamDeserializer) where
  tokens : List Token
  tail : List UInt8
  texts : ∀ t ∈ tokens, Blank t.gap ∧ d.Text t.text t.value
  gaps : ∀ t ∈ tokens.tail, t.gap ≠ []
  blank : Blank tail

variable {d : StreamDeserializer}

def JsonFile.bytes (f : JsonFile d) : List UInt8 := bytesOf f.tokens f.tail

/-- Where the bytes after so many values begin. -/
def JsonFile.start (f : JsonFile d) (j : Nat) : Nat := (bytesOf (f.tokens.take j) []).length

/-- The values of a slice, as the deserializer gives them of the whole. -/
def StreamDeserializer.all (d : StreamDeserializer) : Nat → List UInt8 → List (Except IoError Json)
  | 0, _ => []
  | fuel + 1, bytes =>
    match d.next bytes with
    | .value v length => .ok v :: d.all fuel (bytes.drop length)
    | .eof => [.error .unexpectedEof]
    | .error => [.error .invalidData]
    | .none => []

/-- A range of the file holds the text of a value, and at most whitespace besides. -/
def Contains (content : List UInt8) (range : Nat × Nat) (t : Token) : Prop :=
  ∃ g g', Blank g ∧ Blank g' ∧ (content.drop range.1).take range.2 = g ++ t.text ++ g'

/-- In sequence the reader gives the values of the whole file, and in random mode it records ranges
of which each contains one of the values. -/
structure ChunkIndependent (d : StreamDeserializer) (chunk pick : Nat → Nat) (f : JsonFile d) :
    Prop where
  sequential : ∃ p, new (JsonReader.access d chunk) pick (f.bytes.length + 1) (.open f.bytes) false
    false = some (.ok p) ∧ ∀ k, results (JsonReader.access d chunk) pick k p =
      some ((List.range k).map fun i => (d.all (f.bytes.length + 1) f.bytes)[i]?)
  recorded : ∃ p, new (JsonReader.access d chunk) pick (f.bytes.length + 1) (.open f.bytes) false
    true = some (.ok p) ∧ List.Forall₂ (Contains f.bytes) p.positions f.tokens

/-- The file after so many calls of `read`. -/
def fileAfter (chunk : Nat → Nat) (content : List UInt8) : Nat → File
  | 0 => .open content
  | n + 1 => ((fileAfter chunk content n).read chunk kb8).2

/-- An offset inside the text of a value, after a prefix that is itself the text of a value, which
only a number has. -/
def Cut (d : StreamDeserializer) (t : Token) (start offset : Nat) : Prop :=
  ∃ p v, p <+: t.text ∧ p ≠ t.text ∧ d.Text p v ∧ offset = start + (t.gap.length + p.length)

/-- No call of `read` ends in such a place. -/
def CutFree (d : StreamDeserializer) (chunk : Nat → Nat) (f : JsonFile d) : Prop :=
  ∀ j t, f.tokens[j]? = some t → ∀ n, ¬ Cut d t (f.start j) (fileAfter chunk f.bytes n).offset

/-! ### The window -/

/-- After so many calls of `read`, the buffer and the file hold the bytes that are left. -/
structure Window (chunk : Nat → Nat) (content left : List UInt8) (n : Nat) (s : JsonReader) :
    Prop where
  left : s.buffer ++ s.reader.unread = left
  reader : s.reader = fileAfter chunk content n
  position : s.position + s.buffer.length = s.reader.offset

variable {chunk pick : Nat → Nat} {content left rest : List UInt8} {s s' : JsonReader}
  {t : Token} {n m position : Nat}

theorem offset_le (h : n ≤ m) :
    (fileAfter chunk content n).offset ≤ (fileAfter chunk content m).offset := by
  induction h with
  | refl => exact Nat.le_refl _
  | step _ ih => exact ih.trans (Nat.le_add_right _ _)

theorem Window.refill (hw : Window chunk content left n s) :
    Window chunk content left (n + 1) (s.refill chunk) where
  left := by
    change s.buffer ++ (s.reader.read chunk kb8).1 ++ (s.reader.read chunk kb8).2.unread = left
    rw [List.append_assoc, File.unread_read, hw.left]
  reader := by
    change (s.reader.read chunk kb8).2 = _
    rw [hw.reader]
    rfl
  position := by
    have hposition := hw.position
    change s.position + (s.buffer ++ _).length = s.reader.offset + _
    rw [List.length_append]
    omega

theorem Window.drain (hw : Window chunk content left n s) {len : Nat}
    (hlen : len ≤ s.buffer.length) : Window chunk content (left.drop len) n
      { s with buffer := s.buffer.drop len, position := s.position + len } where
  left := by rw [← hw.left, List.drop_append_of_le_length hlen]
  reader := hw.reader
  position := by
    have hposition := hw.position
    change s.position + len + (s.buffer.drop len).length = s.reader.offset
    rw [List.length_drop]
    omega

/-- A buffer without a value is refilled. -/
theorem loop_refill (hnext : d.next s.buffer = .eof ∨ d.next s.buffer = .none)
    (hne : s.reader.unread ≠ []) :
    s.loop d chunk position = (s.refill chunk).loop d chunk position := by
  have hread : (s.reader.read chunk kb8).1 ≠ [] := File.read_ne_nil chunk hne
  rw [JsonReader.loop]
  rcases hnext with h | h
  · simp only [h, if_neg hread]
  · simp only [h, if_neg hread]

/-- A value that the loop gives is a prefix of a text, and all of it unless a call of `read` ends
with the prefix. -/
structure Gives (d : StreamDeserializer) (chunk : Nat → Nat) (content rest : List UInt8) (t : Token)
    (n : Nat) (s : JsonReader) (p : List UInt8) (v : Json) (m : Nat) (s' : JsonReader) :
    Prop where
  text : d.Text p v
  initial : p <+: t.text
  later : n ≤ m
  position : s'.position = s.position + (t.gap.length + p.length)
  window : Window chunk content ((t.gap ++ t.text ++ rest).drop (t.gap.length + p.length)) m s'
  passed : ∀ k, n ≤ k → k < m → (fileAfter chunk content k).offset < s'.position ∧
    ¬ Cut d t s.position (fileAfter chunk content k).offset
  whole : p = t.text ∧ v = t.value ∨
    p ≠ t.text ∧ s'.position = (fileAfter chunk content m).offset

/-- The value is the same where the loop reads once more before it. -/
theorem Gives.of_refill {p : List UInt8} {v : Json}
    (hw : Window chunk content (t.gap ++ t.text ++ rest) n s) (hne : s.reader.unread ≠ [])
    (hlt : s.buffer.length < t.gap.length + t.text.length)
    (hcut : ¬ Cut d t s.position s.reader.offset)
    (hg : Gives d chunk content rest t (n + 1) (s.refill chunk) p v m s') :
    Gives d chunk content rest t n s p v m s' where
  text := hg.text
  initial := hg.initial
  later := (Nat.le_succ n).trans hg.later
  position := hg.position
  window := hg.window
  whole := hg.whole
  passed := by
    intro k hnk hkm
    rcases Nat.eq_or_lt_of_le hnk with heq | hlt'
    · subst heq
      rw [← hw.reader]
      refine ⟨?_, hcut⟩
      have hposition := hw.position
      rcases hg.whole with ⟨hp, -⟩ | ⟨-, hend⟩
      · have hs' : s'.position = s.position + (t.gap.length + p.length) := hg.position
        rw [hp] at hs'
        omega
      · have hbytes : 0 < (s.reader.read chunk kb8).1.length :=
          List.length_pos_iff.mpr (File.read_ne_nil chunk hne)
        have hnext : (fileAfter chunk content (n + 1)).offset =
            s.reader.offset + (s.reader.read chunk kb8).1.length := by
          rw [hw.reader]
          rfl
        have hle : (fileAfter chunk content (n + 1)).offset ≤
          (fileAfter chunk content m).offset := offset_le hg.later
        omega
    · exact hg.passed k hlt' hkm

theorem Separated.of_append {r r' : List UInt8} (h : Separated (r ++ r')) : Separated r := by
  cases r with
  | nil => simp [Separated]
  | cons b r => exact h

theorem StreamDeserializer.Documented.text_ne_nil (hd : d.Documented) {p : List UInt8} {v : Json}
    (h : d.Text p v) : p ≠ [] := by
  rintro rfl
  obtain ⟨b, hb, -⟩ := hd.visible _ _ h
  cases hb

/-- A buffer that ends before the text does holds the text of a value after the gap, or it holds no
value and the text of none. -/
theorem next_of_short (hd : d.Documented) (hgap : Blank t.gap) (htext : d.Text t.text t.value)
    {buffer more : List UInt8} (hmore : t.gap ++ t.text = buffer ++ more) :
    (∃ p v, buffer = t.gap ++ p ∧ t.text = p ++ more ∧ d.Text p v) ∨
      (d.next buffer = .eof ∨ d.next buffer = .none) ∧
        ∀ p v, p <+: t.text → buffer.length = t.gap.length + p.length → ¬ d.Text p v := by
  rcases List.append_eq_append_iff.mp hmore with ⟨p, hbuffer, hp⟩ | ⟨g, hg, -⟩
  · by_cases hvalue : ∃ v, d.Text p v
    · obtain ⟨v, hv⟩ := hvalue
      exact .inl ⟨p, v, hbuffer, hp, hv⟩
    · right
      constructor
      · by_cases hnil : p = []
        · right
          rw [hbuffer, hnil, List.append_nil]
          exact hd.blank _ hgap
        · left
          rw [hbuffer]
          refine hd.incomplete _ _ _ _ hgap htext ⟨more, hp.symm⟩ hnil fun v hv => ?_
          exact hvalue ⟨v, hv⟩
      · intro q v hq hlen hv
        have hqp : q = p := by
          have hlen' : q.length = p.length := by
            rw [hbuffer, List.length_append] at hlen
            omega
          have hpre : p <+: t.text := ⟨more, hp.symm⟩
          rw [List.prefix_iff_eq_take.mp hq, List.prefix_iff_eq_take.mp hpre, hlen']
        exact hvalue ⟨v, hqp ▸ hv⟩
  · right
    constructor
    · right
      refine hd.blank _ fun b hb => hgap b ?_
      rw [hg]
      exact List.mem_append_left _ hb
    · intro q v _ hlen hv
      have hpos := List.length_pos_iff.mpr (hd.text_ne_nil hv)
      have hlong := congrArg List.length hg
      rw [List.length_append] at hlong
      omega

theorem loop_value {v : Json} {len : Nat} (hnext : d.next s.buffer = .value v len)
    (hlen : len ≤ s.buffer.length) : s.loop d chunk position = some (some (.ok (v, position, len)),
      { s with buffer := s.buffer.drop len, position := s.position + len }) := by
  rw [JsonReader.loop, hnext]
  exact if_pos hlen

theorem loop_gives (hd : d.Documented) (position : Nat) (hgap : Blank t.gap)
    (htext : d.Text t.text t.value) (hrest : Separated rest)
    (hw : Window chunk content (t.gap ++ t.text ++ rest) n s) :
    ∃ p v m s', s.loop d chunk position =
        some (some (.ok (v, position, t.gap.length + p.length)), s') ∧
      Gives d chunk content rest t n s p v m s' := by
  generalize hlen : s.reader.unread.length = len
  induction len using Nat.strong_induction_on generalizing s n with
  | _ len ih =>
    have hpassed : ∀ s' : JsonReader, ∀ k, n ≤ k → k < n →
        (fileAfter chunk content k).offset < s'.position ∧
          ¬ Cut d t s.position (fileAfter chunk content k).offset :=
      fun _ k hnk hkn => absurd hnk (Nat.not_le_of_lt hkn)
    by_cases hlong : t.gap.length + t.text.length ≤ s.buffer.length
    · have hbuffer : s.buffer =
          t.gap ++ t.text ++ s.buffer.drop (t.gap.length + t.text.length) := by
        have htake := congrArg (List.take (t.gap.length + t.text.length)) hw.left
        rw [List.take_append_of_le_length hlong, ← List.length_append, List.take_left] at htake
        rw [← List.length_append]
        nth_rewrite 1 [← List.take_append_drop (t.gap ++ t.text).length s.buffer]
        rw [htake]
      have hsep : Separated (s.buffer.drop (t.gap.length + t.text.length)) := by
        have hdrop := congrArg (List.drop (t.gap.length + t.text.length)) hw.left
        rw [List.drop_append_of_le_length hlong, ← List.length_append, List.drop_left] at hdrop
        rw [← hdrop, List.length_append] at hrest
        exact hrest.of_append
      have hnext := hd.complete _ _ _ _ hgap htext hsep
      rw [← hbuffer] at hnext
      exact ⟨_, _, n, _, loop_value hnext hlong, htext, List.prefix_refl _, Nat.le_refl _, rfl,
        hw.drain hlong, hpassed _, .inl ⟨rfl, rfl⟩⟩
    · obtain ⟨more, hmore, hunread⟩ : ∃ more, t.gap ++ t.text = s.buffer ++ more ∧
          s.reader.unread = more ++ rest := by
        rcases List.append_eq_append_iff.mp hw.left with h | ⟨r, hbuffer, -⟩
        · exact h
        · rw [hbuffer, List.length_append, List.length_append] at hlong
          omega
      have hmorene : more ≠ [] := by
        rintro rfl
        have hsame := congrArg List.length hmore
        rw [List.length_append, List.append_nil] at hsame
        omega
      rcases next_of_short hd hgap htext hmore with ⟨p, v, hbuffer, hp, hv⟩ | ⟨hnext, hno⟩
      · -- a prefix of the text, as it may be of a number, is taken for the value
        have hnext := hd.complete t.gap p v [] hgap hv (by simp [Separated])
        rw [List.append_nil, ← hbuffer] at hnext
        have hall : s.buffer.length = t.gap.length + p.length := by
          rw [hbuffer, List.length_append]
        have hne : p ≠ t.text := by
          intro h
          rw [h] at hp
          exact hmorene (List.append_right_eq_self.mp hp.symm)
        refine ⟨_, _, n, _, loop_value hnext hall.ge, hv, ⟨more, hp.symm⟩, Nat.le_refl _, rfl,
          hw.drain hall.ge, hpassed _, .inr ⟨hne, ?_⟩⟩
        have hposition := hw.position
        rw [hw.reader, hall] at hposition
        exact hposition
      · have hne : s.reader.unread ≠ [] := by
          rw [hunread]
          exact List.append_ne_nil_of_left_ne_nil hmorene _
        have hcut : ¬ Cut d t s.position s.reader.offset := by
          rintro ⟨p, v, hp, -, hv, hoffset⟩
          have hposition := hw.position
          exact hno p v hp (by omega) hv
        have hless := JsonReader.length_refill (File.read_ne_nil chunk hne)
        obtain ⟨p, v, m, s', hloop, hgives⟩ := ih _ (hlen ▸ hless) hw.refill rfl
        rw [loop_refill hnext hne]
        exact ⟨p, v, m, s', hloop, hgives.of_refill hw hne (Nat.lt_of_not_le hlong) hcut⟩

/-- On whitespace the loop reads to the end of the file and gives nothing. -/
theorem loop_blank (hd : d.Documented) (position : Nat) (P : JsonReader → Prop)
    (hblank : ∀ s, P s → Blank s.buffer) (hrefill : ∀ s, P s → P (s.refill chunk)) (hs : P s) :
    ∃ s', s.loop d chunk position = some (none, s') ∧ P s' := by
  generalize hlen : s.reader.unread.length = len
  induction len using Nat.strong_induction_on generalizing s with
  | _ len ih =>
    have hnext : d.next s.buffer = .none := hd.blank _ (hblank s hs)
    by_cases hunread : s.reader.unread = []
    · have hread : (s.reader.read chunk kb8).1 = [] :=
        (File.read_eq_nil_iff (by decide) _).mpr hunread
      have hrefilled : s.refill chunk = { s with reader := (s.reader.read chunk kb8).2 } := by
        change JsonReader.mk (s.buffer ++ (s.reader.read chunk kb8).1) _ _ = _
        rw [hread, List.append_nil]
        rfl
      refine ⟨s.refill chunk, ?_, hrefill s hs⟩
      rw [JsonReader.loop, hnext, hrefilled]
      exact if_pos hread
    · have hless := JsonReader.length_refill (File.read_ne_nil chunk hunread)
      rw [loop_refill (.inr hnext) hunread]
      exact ih _ (hlen ▸ hless) (hrefill s hs) rfl

/-- Behind the values the loop reads to the end of the file and gives nothing. -/
theorem loop_done (hd : d.Documented) (position : Nat) (hleft : Blank left)
    (hw : Window chunk content left n s) :
    ∃ m s', s.loop d chunk position = some (none, s') ∧ s'.position = s.position ∧
      Window chunk content left m s' := by
  obtain ⟨s', hloop, hposition, m, hw'⟩ := loop_blank hd position
    (fun s' => s'.position = s.position ∧ ∃ m, Window chunk content left m s')
    (fun s' hs b hb => by
      obtain ⟨-, m, hw⟩ := hs
      refine hleft b ?_
      rw [← hw.left]
      exact List.mem_append_left _ hb)
    (fun s' hs => by
      obtain ⟨hposition, m, hw⟩ := hs
      exact ⟨hposition, m + 1, hw.refill⟩)
    ⟨rfl, n, hw⟩
  exact ⟨m, s', hloop, hposition, hw'⟩

end Pewpew.FileProvider
