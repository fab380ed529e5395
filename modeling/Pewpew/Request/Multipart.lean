import Pewpew.Library.Fallible
import Pewpew.Request.Accounting

/-! The bytes of a multipart body, its length and the text that is shown of it. -/
namespace Pewpew.Request

open SelectParser Fallible

/-- What a part holds: a text, or a file, which is shown under a name. -/
inductive Content where
  | text (s : String)
  | file (path name : String)

structure Part where
  headers : HeaderMap
  content : Content

/-- The bytes of a file are those of its reads, up to one that fills nothing. -/
def Http.fileBytes (http : Http) (path : String) : List UInt8 :=
  ((http.fileReads path).takeWhile (· ≠ [])).flatten

namespace Content

/-- What is sent. -/
def sent (http : Http) : Content → List UInt8
  | text s => bytes s
  | file path _ => http.fileBytes path

/-- What is shown: a file has a placeholder. -/
def shown : Content → List UInt8
  | text s => bytes s
  | file _ name => bytes ("<<contents of file: " ++ name ++ ">>")

/-- A file has the length that its metadata give. -/
def Settled (http : Http) : Content → Prop
  | text _ => True
  | file path _ => ∀ n, http.fileLength path = .ok n → (http.fileBytes path).length = n

end Content

/-- The line of a header. -/
def headerLine (h : String × String) : String := "\r\n" ++ h.1 ++ ": " ++ h.2

/-- The boundary, on a new line for all parts but the first, the headers, and an empty line. -/
def Part.head (boundary : String) (p : Part) (i : Nat) : String :=
  (if i = 0 then "" else "\r\n") ++ "--" ++ boundary ++
    String.join (p.headers.map headerLine) ++ "\r\n\r\n"

/-- The parts from the `i`-th one on. -/
def renderFrom (boundary : String) (content : Content → List UInt8) : Nat → List Part → List UInt8
  | _, [] => []
  | i, p :: parts =>
    bytes (p.head boundary i) ++ content p.content ++ renderFrom boundary content (i + 1) parts

/-- The parts in order, and the closing boundary. -/
def render (boundary : String) (content : Content → List UInt8) (parts : List Part) : List UInt8 :=
  renderFrom boundary content 0 parts ++ bytes ("\r\n--" ++ boundary ++ "--\r\n")

section Multipart

variable (x : Externals) (http : Http) (d : Json) (path : String) (isForm : Bool)

/-- What the templates of a piece give: `text` is that of its body and `own` are its headers. A form
gets a `content-disposition` unless the piece has one. -/
structure Evaluates (mp : MultipartPiece) (text : String) (own : HeaderMap) (p : Part) : Prop where
  body : evaluateText x d mp.template = .ok text
  headers : mp.headers.mapM (header x http d) = .ok own
  content : p.content =
    if mp.isFile then .file (http.withFileName path text) text else .text text
  disposition : if isForm ∧ ∀ h ∈ own, h.1 ≠ "content-disposition" then
      ∃ v, http.headerValue (contentDisposition mp text) = .ok v ∧
        p.headers = own ++ [("content-disposition", v)]
    else p.headers = own

end Multipart

variable {x : Externals} {http : Http} {d : Json} {path : String} {isForm copy : Bool} {i : Nat}
  {mp : MultipartPiece} {pc : Piece} {m : MultipartBody} {headers : HeaderMap} {b : Body}
  {p : Part} {r : Nat × List (List UInt8)}

/-- The stream of a file is all of its bytes. -/
theorem flatten_fileStream (http : Http) (path : String) :
    (fileStream http path).flatten = http.fileBytes path := rfl

theorem bytes_append (s t : String) : bytes (s ++ t) = bytes s ++ bytes t := by
  simp [bytes]

theorem length_bytes (s : String) : (bytes s).length = s.utf8ByteSize := by
  simp [bytes]

/-- A piece of the builder is a part: its data are the head and a text, or the head alone. -/
structure Builds (http : Http) (i : Nat) (pc : Piece) (p : Part) : Prop where
  file : pc.file = match p.content with
    | .text _ => none
    | .file path _ => some path
  data : bytes pc.data = match p.content with
    | .text s => bytes (p.head http.boundary i) ++ bytes s
    | .file _ _ => bytes (p.head http.boundary i)
  shown : bytes pc.shown = bytes (p.head http.boundary i) ++ p.content.shown

theorem dispositionLine_ok {text line : String} {own : HeaderMap}
    (h : dispositionLine http isForm mp text own = .ok line) :
    ∃ hs, String.join ((own ++ hs).map headerLine) = String.join (own.map headerLine) ++ line ∧
      if isForm ∧ ∀ h ∈ own, h.1 ≠ "content-disposition" then
        ∃ v, http.headerValue (contentDisposition mp text) = .ok v ∧
          own ++ hs = own ++ [("content-disposition", v)]
      else own ++ hs = own := by
  rw [dispositionLine] at h
  have hiff : (isForm && !own.any fun h => h.1 = "content-disposition") = true ↔
      isForm ∧ ∀ h ∈ own, h.1 ≠ "content-disposition" := by simp
  split at h
  · next hadd =>
    simp only [if_pos (hiff.mp hadd)]
    cases hv : http.headerValue (contentDisposition mp text) with
    | error e => simp [hv, Except.mapError, Except.map] at h
    | ok v =>
      rw [hv] at h
      obtain rfl := Except.ok.inj h
      refine ⟨[("content-disposition", v)], ?_, v, rfl, rfl⟩
      simp [headerLine]
  · next hadd =>
    simp only [if_neg (hiff.not.mp hadd)]
    obtain rfl := Except.ok.inj h
    exact ⟨[], by simp, List.append_nil own⟩

theorem piece_builds (h : piece x http d path isForm i mp = .ok pc) :
    ∃ text own p, Evaluates x http d path isForm mp text own p ∧ Builds http i pc p := by
  obtain ⟨text, htext, h⟩ := bind_ok.mp h
  obtain ⟨own, hown, h⟩ := bind_ok.mp h
  obtain ⟨line, hline, h⟩ := bind_ok.mp h
  obtain ⟨hs, hjoin, hdisposition⟩ := dispositionLine_ok hline
  obtain ⟨data, hdata⟩ : ∃ data, data = (if i = 0 then "--" else "\r\n--") ++ http.boundary ++
    String.join (own.map headerLine) ++ line ++ "\r\n\r\n" := ⟨_, rfl⟩
  have hhead (c : Content) : data = Part.head http.boundary ⟨own ++ hs, c⟩ i := by
    rw [Part.head, hjoin, hdata]
    split <;> simp [String.append_assoc]
  have h : (if mp.isFile then
      .ok ⟨data, some (http.withFileName path text),
        data ++ "<<contents of file: " ++ text ++ ">>"⟩
    else .ok ⟨data ++ text, none, data ++ text⟩) = (.ok pc : Except TestError Piece) := by
    rw [hdata]
    exact h
  split at h
  · next hfile =>
    obtain rfl := Except.ok.inj h
    refine ⟨text, own, ⟨own ++ hs, .file (http.withFileName path text) text⟩,
      ⟨htext, hown, by rw [if_pos hfile], hdisposition⟩, rfl, congrArg bytes (hhead _), ?_⟩
    rw [Content.shown, ← hhead, ← bytes_append]
    simp [String.append_assoc]
  · next hfile =>
    obtain rfl := Except.ok.inj h
    refine ⟨text, own, ⟨own ++ hs, .text text⟩,
      ⟨htext, hown, by rw [if_neg hfile], hdisposition⟩, rfl, ?_, ?_⟩
    · rw [← hhead]
      exact bytes_append data text
    · rw [← hhead]
      exact bytes_append data text

/-- The body of a piece is the head and the content, with their length. -/
theorem pieceBody_sends (hb : Builds http i pc p) (h : pieceBody http pc = .ok r) :
    r.2.flatten = bytes (p.head http.boundary i) ++ p.content.sent http ∧
      (p.content.Settled http → r.1 = r.2.flatten.length) := by
  obtain ⟨hfile, hdata, -⟩ := hb
  rw [pieceBody] at h
  cases hc : p.content with
  | text s =>
    rw [hc] at hfile hdata
    simp only [hfile] at h
    obtain rfl := Except.ok.inj h
    simp [hdata, Content.sent, ← length_bytes]
  | file path name =>
    rw [hc] at hfile hdata
    simp only [hfile] at h
    obtain ⟨⟨n, stream⟩, hn, h⟩ := bind_ok.mp h
    obtain ⟨n', hlength, hn⟩ := bind_ok.mp hn
    obtain ⟨rfl, rfl⟩ := Prod.mk.inj (Except.ok.inj hn)
    obtain rfl := Except.ok.inj h
    refine ⟨by rw [List.flatten_cons, flatten_fileStream, hdata, Content.sent],
      fun hsettled => ?_⟩
    have hn : http.fileLength path = .ok n' := by
      cases hl : http.fileLength path with
      | error e => simp [hl, Except.mapError] at hlength
      | ok k => simpa [hl, Except.mapError] using hlength
    rw [List.flatten_cons, List.length_append, length_bytes, flatten_fileStream, hsettled n' hn]
    exact Nat.add_comm _ _

/-- What the builder makes of the pieces from the `i`-th one on. -/
theorem pieces_render {l : List MultipartPiece} {pcs : List Piece}
    {rs : List (Nat × List (List UInt8))}
    (hpcs : List.Forall₂ (fun mp pc => piece x http d path isForm mp.2 mp.1 = .ok pc)
      (l.zipIdx i) pcs)
    (hrs : List.Forall₂ (fun pc r => pieceBody http pc = .ok r) pcs rs) :
    ∃ parts, List.Forall₂ (fun mp p => ∃ text own, Evaluates x http d path isForm mp text own p)
        l parts ∧
      (rs.flatMap Prod.snd).flatten = renderFrom http.boundary (Content.sent http) i parts ∧
      bytes (String.join (pcs.map Piece.shown)) =
        renderFrom http.boundary Content.shown i parts ∧
      ((∀ p ∈ parts, p.content.Settled http) →
        (rs.map Prod.fst).sum = (rs.flatMap Prod.snd).flatten.length) := by
  induction l generalizing i pcs rs with
  | nil =>
    cases hpcs
    cases hrs
    exact ⟨[], .nil, rfl, rfl, fun _ => rfl⟩
  | cons mp l ih =>
    cases hpcs with
    | cons hpc hpcs =>
      cases hrs with
      | @cons pc r pcs rs hr hrs =>
        obtain ⟨parts, hparts, hsent, hshown, hlength⟩ := ih hpcs hrs
        obtain ⟨text, own, p, heval, hbuilds⟩ := piece_builds hpc
        obtain ⟨hflat, hsettled⟩ := pieceBody_sends hbuilds hr
        refine ⟨p :: parts, .cons ⟨text, own, heval⟩ hparts, ?_, ?_, fun hall => ?_⟩
        · rw [List.flatMap_cons, List.flatten_append, hflat, hsent, renderFrom]
        · rw [List.map_cons, String.join_cons, bytes_append, hbuilds.shown, hshown, renderFrom]
        · rw [List.map_cons, List.sum_cons, List.flatMap_cons, List.flatten_append,
            List.length_append, hsettled (hall p List.mem_cons_self),
            hlength fun q hq => hall q (List.mem_cons_of_mem p hq)]

/-- A multipart body of the parts: the stream and the copied text are rendered from them, and the
length is that of the stream where the files keep theirs. -/
structure WellFormed (http : Http) (parts : List Part) (copy : Bool) (b : Body) : Prop where
  stream : b.stream.flatten = render http.boundary (Content.sent http) parts
  value : if copy then ∃ v, b.value = some v ∧ bytes v = render http.boundary Content.shown parts
    else b.value = none
  length : (∀ p ∈ parts, p.content.Settled http) → b.length = b.stream.flatten.length

/-- The builder makes a well-formed body of the parts that its pieces evaluate to. -/
theorem multipart_wellFormed (h : multipartBodyAsHyperBody x http d m headers copy = .ok b) :
    ∃ type isForm parts,
      multipartType http ((headers.get "content-type").getD "multipart/form-data") =
        .ok (type, isForm) ∧
      List.Forall₂ (fun mp p => ∃ text own, Evaluates x http d m.path isForm mp text own p)
        m.pieces parts ∧
      WellFormed http parts copy b := by
  obtain ⟨⟨type, isForm⟩, htype, h⟩ := bind_ok.mp h
  obtain ⟨pcs, hpcs, h⟩ := bind_ok.mp h
  obtain ⟨rs, hrs, h⟩ := bind_ok.mp h
  obtain ⟨parts, hparts, hsent, hshown, hlength⟩ :=
    pieces_render (mapM_ok_iff.mp hpcs) (mapM_ok_iff.mp hrs)
  obtain rfl := Except.ok.inj h
  refine ⟨type, isForm, parts, htype, hparts, ?_, ?_, fun hsettled => ?_⟩
  · rw [List.flatten_append, hsent, List.flatten_singleton]
    rfl
  · cases copy with
    | false => rfl
    | true =>
      refine ⟨_, rfl, ?_⟩
      rw [bytes_append, hshown]
      rfl
  · rw [List.flatten_append, List.length_append, List.flatten_singleton, length_bytes,
      hlength hsettled]
    exact Nat.add_comm _ _

/-- A text and a file of three bytes. -/
def MultipartBody.sample : MultipartBody where
  path := ""
  pieces := [⟨"a", [], false, plainText "x"⟩, ⟨"f", [], true, plainText "y"⟩]

def Http.oneFile : Http :=
  { Http.plain with
    fileLength := fun _ => .ok 3
    fileReads := fun _ => [[1, 2], [3], [], [4]] }

theorem multipart_wellFormed_sample : ∃ b parts,
    multipartBodyAsHyperBody .plain .oneFile .null .sample [] true = .ok b ∧
      WellFormed .oneFile parts true b ∧ b.length = b.stream.flatten.length := by
  obtain ⟨b, hb⟩ : ∃ b,
      multipartBodyAsHyperBody .plain .oneFile .null .sample [] true = .ok b := ⟨_, rfl⟩
  obtain ⟨type, isForm, parts, -, -, hwf⟩ := multipart_wellFormed hb
  have hsettled (c : Content) : c.Settled .oneFile := by
    cases c with
    | text s => trivial
    | file path name =>
      intro n hn
      exact Except.ok.inj hn
  exact ⟨b, parts, hb, hwf, hwf.length fun p _ => hsettled p.content⟩

end Pewpew.Request
