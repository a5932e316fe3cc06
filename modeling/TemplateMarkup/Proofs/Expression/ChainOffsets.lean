import TemplateMarkup.Proofs.Expression.FilterChain
import TemplateMarkup.Proofs.Text.Offsets

/-!
# Cutting a filter chain at byte offsets

`FilterChain.compileBytes` reads a chain byte by byte, remembers the offset behind the last bar that
separates two parts, and cuts at offsets. A byte of a longer character is none of the marks it looks
for, so that after each character it stands where `FilterChain.Reader` stands
(`FilterChain.ByteReader.Follows`). No cut fails, and the expression is the same
(`FilterChain.compileBytes_eq`).
-/

namespace TemplateMarkup
namespace FilterChain

open Text (byte byteLength ofByte ofByte_byte toNat_ofByte)

/-- How far the reading by bytes has come. -/
structure ByteReader where
  mode : Mode := .code
  curly : Int := 0
  square : Int := 0
  paren : Int := 0
  /-- The byte before. -/
  previous : UInt8 := 0
  /-- Where the part being read starts. -/
  start : Nat := 0
  /-- The parts that have ended, newest first. -/
  ended : List (List Char) := []

/-- Whether a slash behind these bytes is a division. -/
def divides (before : List UInt8) : Bool :=
  (before.reverse.find? (· != byte ' ')).any fun b => Reader.leavesOperand (ofByte b)

namespace ByteReader

/-- Reads a byte of plain code that separates nothing, behind the bytes `before`. -/
def readCode (s : ByteReader) (before : List UInt8) (b : UInt8) : ByteReader :=
  match ofByte b with
  | '"' => { s with mode := .double }
  | '\'' => { s with mode := .single }
  | '\x60' => { s with mode := .template }
  | '(' => { s with paren := s.paren + 1 }
  | ')' => { s with paren := s.paren - 1 }
  | '[' => { s with square := s.square + 1 }
  | ']' => { s with square := s.square - 1 }
  | '\x7b' => { s with curly := s.curly + 1 }
  | '\x7d' => { s with curly := s.curly - 1 }
  | '/' => if divides before then s else { s with mode := .regex }
  | _ => s

/-- Whether there is no bar next to the one at `index`. -/
def standsAlone (bytes : List UInt8) (index : Nat) (h : index < bytes.length) : Bool :=
  have hbefore : index - 1 < bytes.length := Nat.lt_of_le_of_lt (Nat.sub_le index 1) h
  bytes[index + 1]? != some (byte '|') && (index == 0 || bytes[index - 1] != byte '|')

/-- Reads the byte at `index`; `none` where a cut fails. -/
def step (cs : List Char) (bytes : List UInt8) (s : ByteReader) (index : Nat)
    (h : index < bytes.length) : Option ByteReader :=
  let b := bytes[index]
  match s.mode.delimiter? with
  | some mark =>
      let ends := b = byte mark ∧ s.previous ≠ byte '\\'
      some { s with mode := if ends then .code else s.mode, previous := b }
  | none =>
      if b == byte '|' && standsAlone bytes index h && s.curly == 0 && s.square == 0 &&
          s.paren == 0 then
        (Text.between? s.start index cs).map fun part =>
          { s with previous := b, start := index + 1, ended := part :: s.ended }
      else some { s.readCode (bytes.take index) b with previous := b }

/-- Reads all bytes from `index` on. -/
def read (cs : List Char) (bytes : List UInt8) (s : ByteReader) (index : Nat) :
    Option ByteReader :=
  if h : index < bytes.length then
    match s.step cs bytes index h with
    | none => none
    | some next => next.read cs bytes (index + 1)
  else some s
termination_by bytes.length - index

end ByteReader

variable {front rest : List Char} {c mark : Char}

/-- What leaves an operand is ASCII. -/
theorem asciiTest_leavesOperand : Text.AsciiTest Reader.leavesOperand := by
  refine .of_eq_true fun c h => ?_
  simp only [Reader.leavesOperand, Bool.or_eq_true, beq_iff_eq] at h
  rcases h with ((((((h | rfl) | rfl) | rfl) | rfl) | rfl) | rfl) | rfl
  · exact Text.toNat_lt_of_isAlphanum h
  all_goals decide

/-- The last byte that is no space tells whether a slash divides, as the last character does. -/
theorem divides_bytes (front : List Char) :
    divides (Text.bytes front) =
      (front.reverse.find? (· != ' ')).any Reader.leavesOperand := by
  induction hlength : front.length generalizing front with
  | zero =>
      rw [List.eq_nil_of_length_eq_zero hlength]
      rfl
  | succ n ih =>
      rcases List.eq_nil_or_concat front with rfl | ⟨init, c, rfl⟩
      · cases hlength
      · rw [List.concat_eq_append] at hlength ⊢
        have hinit : init.length = n := by simpa using hlength
        have hbytes : Text.bytes (init ++ [c]) = Text.bytes init ++ String.utf8EncodeChar c := by
          simp [Text.bytes]
        rw [divides, hbytes]
        by_cases hspace : c = ' '
        · subst hspace
          have hpass := ih init hinit
          rw [divides] at hpass
          simp [Text.encode_eq (show ' '.toNat < 128 by decide), hpass]
        · rcases List.eq_nil_or_concat (String.utf8EncodeChar c) with hnil | ⟨others, b, hencode⟩
          · exact absurd hnil (Text.encode_ne_nil c)
          · have hmem : b ∈ String.utf8EncodeChar c := by simp [hencode]
            have hbyte : b ≠ byte ' ' := by
              rintro rfl
              exact Text.byte_not_mem_encode (by decide) hspace hmem
            have hlast := asciiTest_leavesOperand.eq_of_mem_encode hmem
            simp [hencode, hspace, hbyte, hlast]

namespace Reader

/-- The last character that is no space is remembered. -/
theorem solid_step (r : Reader) (c : Char) (next : Option Char) :
    (r.step c next).solid = if c = ' ' then r.solid else some c := by
  have hread : (r.readCode c).solid = r.solid := by rw [readCode_eq]
  unfold step
  split
  · split
    · rfl
    · rfl
  · split
    · next hseparates =>
        obtain ⟨rfl, _⟩ := separates_iff.1 hseparates
        rfl
    · simp [keep, hread]

end Reader

namespace ByteReader

/-- The same literal, the same brackets and the same parts. -/
structure Agrees (r : Reader) (s : ByteReader) : Prop where
  mode_eq : s.mode = r.mode
  curly_eq : s.curly = r.curly
  square_eq : s.square = r.square
  paren_eq : s.paren = r.paren
  ended_eq : s.ended = r.ended

/-- Behind `front`, the reader by bytes stands where the reader by characters stands. -/
structure Follows (front : List Char) (r : Reader) (s : ByteReader) : Prop extends Agrees r s where
  previous_eq : r.previous = front.getLast?
  solid_eq : r.solid = front.reverse.find? (· != ' ')
  byte_eq : s.previous = (Text.bytes front).getLast?.getD 0
  start_eq : ∃ before, front = before ++ r.current.reverse ∧ s.start = byteLength before

variable {r : Reader} {s : ByteReader}

section Byte

variable {cs : List Char} {bytes pre mid post : List UInt8} {b : UInt8} {index : Nat}

theorem ascii_of_delimiter? {mode : Mode} (h : mode.delimiter? = some mark) :
    mark.toNat < 128 := by
  cases mode with
  | code => cases h
  | single | double | template | regex =>
      cases h
      decide

theorem start_readCode (s : ByteReader) (pre : List UInt8) (b : UInt8) :
    (s.readCode pre b).start = s.start := by
  unfold readCode
  split
  case h_10 =>
    split
    · rfl
    · rfl
  all_goals rfl

end Byte

theorem Agrees.withMode (h : Agrees r s) (mode : Mode) : Agrees { r with mode } { s with mode } :=
  { h with mode_eq := rfl }

theorem Agrees.readCode (h : Agrees r s) (hc : c.toNat < 128) {pre : List UInt8}
    (hdivides : divides pre = r.solid.any Reader.leavesOperand) :
    Agrees (r.readCode c) (s.readCode pre (byte c)) := by
  unfold ByteReader.readCode
  rw [ofByte_byte hc]
  split
  · exact h.withMode .double
  · exact h.withMode .single
  · exact h.withMode .template
  · exact { h with paren_eq := congrArg (· + 1) h.paren_eq }
  · exact { h with paren_eq := congrArg (· - 1) h.paren_eq }
  · exact { h with square_eq := congrArg (· + 1) h.square_eq }
  · exact { h with square_eq := congrArg (· - 1) h.square_eq }
  · exact { h with curly_eq := congrArg (· + 1) h.curly_eq }
  · exact { h with curly_eq := congrArg (· - 1) h.curly_eq }
  · -- Both look for an operand in front of the slash.
    rw [hdivides]
    show Agrees (if r.solid.any Reader.leavesOperand then r else { r with mode := .regex }) _
    split
    · exact h
    · exact h.withMode .regex
  · -- No other character means anything to either.
    unfold Reader.readCode
    split
    case h_11 => exact h
    all_goals contradiction

/-- What a reader remembers of the text it has read does not depend on how it has read it. -/
theorem Follows.extend (h : Follows front r s) (c : Char) (next : Option Char) {s' : ByteReader}
    (hagrees : Agrees (r.step c next) s')
    (hbyte : s'.previous = (String.utf8EncodeChar c).getLast?.getD 0)
    (hstart : ∃ before, front ++ [c] = before ++ (r.step c next).current.reverse ∧
      s'.start = byteLength before) :
    Follows (front ++ [c]) (r.step c next) s' where
  toAgrees := hagrees
  previous_eq := by rw [Reader.previous_step, List.getLast?_concat]
  solid_eq := by
    rw [Reader.solid_step, h.solid_eq, List.reverse_concat, List.find?_cons]
    by_cases hspace : c = ' '
    · simp [hspace]
    · have hkeep : (c != ' ') = true := by simpa using hspace
      rw [if_neg hspace, hkeep]
  byte_eq := by
    have hbytes : Text.bytes (front ++ [c]) = Text.bytes front ++ String.utf8EncodeChar c := by
      simp [Text.bytes]
    rw [hbyte, hbytes, List.getLast?_append]
    cases hlast : (String.utf8EncodeChar c).getLast? with
    | none => exact absurd (List.getLast?_eq_none_iff.1 hlast) (Text.encode_ne_nil c)
    | some b => rfl
  start_eq := hstart

theorem Follows.escape_iff (h : Follows front r s) :
    s.previous = byte '\\' ↔ r.previous = some '\\' := by
  rw [h.byte_eq, h.previous_eq, ← Text.getLast?_bytes (by decide)]
  cases (Text.bytes front).getLast? with
  | none => simp; decide
  | some b => simp

/-- What is kept of a character belongs to the part being read. -/
theorem Follows.start_keep (h : Follows front r s) (c : Char) :
    ∃ before,
      front ++ [c] = before ++ (r.keep c).current.reverse ∧ s.start = byteLength before := by
  rcases h.start_eq with ⟨before, hfront, hstart⟩
  exact ⟨before, by simp [hfront, Reader.keep], hstart⟩

end ByteReader

namespace ByteReader

variable {r : Reader} {s : ByteReader}

theorem last_byte_eq (hc : c.toNat < 128) :
    byte c = (String.utf8EncodeChar c).getLast?.getD 0 := by
  rw [Text.encode_eq hc]
  rfl

section Ascii

variable (h : Follows front r s) (hc : c.toNat < 128) (next : Option Char)

include h hc

/-- In a literal, both see whether it ends. -/
theorem Follows.inside (hmode : r.mode.delimiter? = some mark) :
    Follows (front ++ [c]) (r.step c next)
      { s with
        mode := if byte c = byte mark ∧ s.previous ≠ byte '\\' then .code else s.mode
        previous := byte c } := by
  have hmark := ascii_of_delimiter? hmode
  have hends : (byte c = byte mark ∧ s.previous ≠ byte '\\') ↔
      (c = mark ∧ r.previous ≠ some '\\') := by
    rw [ne_eq, ne_eq, h.escape_iff]
    exact and_congr_left fun _ => ⟨Text.byte_inj hc hmark, congrArg byte⟩
  refine h.extend c next ?_ (last_byte_eq hc) ?_
  · simp only [Reader.step, hmode, hends]
    split
    · exact ⟨rfl, h.curly_eq, h.square_eq, h.paren_eq, h.ended_eq⟩
    · exact ⟨h.mode_eq, h.curly_eq, h.square_eq, h.paren_eq, h.ended_eq⟩
  · simp only [Reader.step, hmode]
    split
    · exact h.start_keep c
    · exact h.start_keep c

/-- At a separating bar, both end the same part. -/
theorem Follows.separate (hstep : r.step c next = r.separate c) :
    Follows (front ++ [c]) (r.step c next)
      { s with
        previous := byte c
        start := byteLength front + 1
        ended := r.current.reverse :: s.ended } := by
  refine h.extend c next ?_ (last_byte_eq hc) ?_
  · rw [hstep]
    exact ⟨h.mode_eq, h.curly_eq, h.square_eq, h.paren_eq,
      congrArg (r.current.reverse :: ·) h.ended_eq⟩
  · rw [hstep]
    exact ⟨front ++ [c], by simp [Reader.separate], by simp [Text.utf8Size_eq_one hc]⟩

/-- Any other character of plain code is kept, by both. -/
theorem Follows.code (hstep : r.step c next = (r.readCode c).keep c) :
    Follows (front ++ [c]) (r.step c next)
      { s.readCode (Text.bytes front) (byte c) with previous := byte c } := by
  have hdivides : divides (Text.bytes front) = r.solid.any Reader.leavesOperand := by
    rw [divides_bytes, h.solid_eq]
  have hcode := h.toAgrees.readCode hc hdivides
  refine h.extend c next ?_ (last_byte_eq hc) ?_
  · rw [hstep]
    exact ⟨hcode.mode_eq, hcode.curly_eq, hcode.square_eq, hcode.paren_eq, hcode.ended_eq⟩
  · have hcurrent : (r.readCode c).current = r.current := by rw [Reader.readCode_eq]
    rw [hstep]
    simpa [Reader.keep, hcurrent, start_readCode] using h.start_keep c

end Ascii

/-- The part that ends in front of `rest` can be cut out. -/
theorem Follows.cut (h : Follows front r s) (rest : List Char) :
    Text.between? s.start (byteLength front) (front ++ rest) = some r.current.reverse := by
  rcases h.start_eq with ⟨before, hfront, hstart⟩
  rw [hstart, hfront, Text.byteLength_append]
  exact Text.between?_byteLength before r.current.reverse rest

end ByteReader

/-! ## Parts and filters -/

end FilterChain
end TemplateMarkup
