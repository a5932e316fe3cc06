import TemplateMarkup.Proofs.Text.Cutting

/-!
# Texts by byte offsets

The readers of this project take a text apart character by character. A reader that keeps the text
and goes through its bytes has to cut at offsets, and such a cut fails where the offset is past the
end or inside a character. This file defines:

* `Text.bytes` — the UTF-8 bytes of a text,
* `Text.from?`, `Text.upTo?`, `Text.between?` — the cuts at offsets, `none` where they fail,
* `Text.offsetOf?`, `Text.lastOffsetOf?` — where a mark stands first, and where a character stands
  last,

and shows that a cut behind a part of the text does not fail, and that an ASCII character is not a
byte of any other one.
-/

namespace TemplateMarkup
namespace Text

variable {c mark : Char} {front inside rest cs : List Char}

/-! ## Bytes -/

def bytes (cs : List Char) : List UInt8 :=
  cs.flatMap String.utf8EncodeChar

/-- The only byte of an ASCII character. -/
def byte (c : Char) : UInt8 :=
  .ofNat c.toNat

/-- The character that a byte is on its own. -/
def ofByte (b : UInt8) : Char :=
  .ofNat b.toNat

theorem bytes_append (cs ds : List Char) : bytes (cs ++ ds) = bytes cs ++ bytes ds :=
  List.flatMap_append

theorem bytes_cons (c : Char) (cs : List Char) :
    bytes (c :: cs) = String.utf8EncodeChar c ++ bytes cs :=
  rfl

theorem length_bytes (cs : List Char) : (bytes cs).length = byteLength cs := by
  induction cs with
  | nil => rfl
  | cons c cs ih =>
      rw [bytes_cons, List.length_append, String.length_utf8EncodeChar, ih, byteLength_cons]

/-- The bytes behind a part are those of what follows it. -/
theorem drop_bytes (front rest : List Char) :
    (bytes (front ++ rest)).drop (byteLength front) = bytes rest := by
  rw [bytes_append, ← length_bytes, List.drop_left]

theorem getElem?_bytes (front rest : List Char) :
    (bytes (front ++ rest))[byteLength front]? = (bytes rest).head? := by
  rw [← drop_bytes front rest, List.head?_drop]

theorem encode_eq (hc : c.toNat < 128) : String.utf8EncodeChar c = [byte c] := by
  have hle : c.val.toNat ≤ 127 := Nat.le_of_lt_succ hc
  simp only [String.utf8EncodeChar, if_pos hle]
  rfl

theorem bytes_append_cons (front : List Char) (c : Char) (rest : List Char) :
    bytes (front ++ c :: rest) = bytes front ++ String.utf8EncodeChar c ++ bytes rest := by
  rw [bytes_append, bytes_cons, List.append_assoc]

/-- An ASCII mark is one byte. -/
theorem bytes_append_mark (hmark : mark.toNat < 128) (front rest : List Char) :
    bytes (front ++ mark :: rest) = bytes front ++ byte mark :: bytes rest := by
  rw [bytes_append_cons, encode_eq hmark, List.append_assoc, List.singleton_append]

theorem utf8Size_eq_one (hc : c.toNat < 128) : c.utf8Size = 1 := by
  rw [← String.length_utf8EncodeChar, encode_eq hc]
  rfl

theorem byteLength_of_ascii (h : ∀ c ∈ cs, c.toNat < 128) : byteLength cs = cs.length := by
  induction cs with
  | nil => rfl
  | cons c cs ih =>
      rw [List.forall_mem_cons] at h
      rw [byteLength_cons, utf8Size_eq_one h.1, ih h.2, List.length_cons, Nat.add_comm]

/-- Every byte of a longer character is above the ASCII ones. -/
theorem le_of_mem_encode (hc : 128 ≤ c.toNat) {b : UInt8} (hb : b ∈ String.utf8EncodeChar c) :
    128 ≤ b.toNat := by
  have hnot : ¬c.val.toNat ≤ 127 := Nat.not_le.2 hc
  simp only [String.utf8EncodeChar, if_neg hnot] at hb
  split at hb
  · simp only [List.mem_cons, List.not_mem_nil, or_false] at hb
    rcases hb with rfl | rfl
    · simp only [UInt8.toNat_ofNat']
      omega
    · simp only [UInt8.toNat_ofNat']
      omega
  · split at hb
    · simp only [List.mem_cons, List.not_mem_nil, or_false] at hb
      rcases hb with rfl | rfl | rfl
      all_goals
        simp only [UInt8.toNat_ofNat']
        omega
    · simp only [List.mem_cons, List.not_mem_nil, or_false] at hb
      rcases hb with rfl | rfl | rfl | rfl
      all_goals
        simp only [UInt8.toNat_ofNat']
        omega

theorem toNat_byte (hc : c.toNat < 128) : (byte c).toNat = c.toNat := by
  simp only [byte, UInt8.toNat_ofNat']
  omega

theorem ofByte_byte (hc : c.toNat < 128) : ofByte (byte c) = c := by
  rw [ofByte, toNat_byte hc, Char.ofNat_toNat]

theorem toNat_ofByte (b : UInt8) : (ofByte b).toNat = b.toNat := by
  have hvalid : b.toNat.isValidChar := .inl (Nat.lt_trans b.toNat_lt (by decide))
  rw [ofByte, Char.ofNat, dif_pos hvalid]
  rfl

theorem byte_inj (hc : c.toNat < 128) (hmark : mark.toNat < 128) (h : byte c = byte mark) :
    c = mark := by
  have hnat := congrArg UInt8.toNat h
  rw [toNat_byte hc, toNat_byte hmark] at hnat
  exact Char.toNat_inj.1 hnat

/-- An ASCII character is not a byte of any other one. -/
theorem byte_not_mem_encode (hmark : mark.toNat < 128) (hne : c ≠ mark) :
    byte mark ∉ String.utf8EncodeChar c := by
  intro hmem
  by_cases hc : c.toNat < 128
  · rw [encode_eq hc, List.mem_singleton] at hmem
    exact hne (byte_inj hc hmark hmem.symm)
  · have hle := le_of_mem_encode (Nat.not_lt.1 hc) hmem
    rw [toNat_byte hmark] at hle
    exact absurd hmark (Nat.not_lt.2 hle)

theorem byte_not_mem_bytes (hmark : mark.toNat < 128) (h : mark ∉ cs) : byte mark ∉ bytes cs := by
  intro hmem
  rcases List.mem_flatMap.1 hmem with ⟨c, hc, hbyte⟩
  have hne : c ≠ mark := by
    rintro rfl
    exact h hc
  exact byte_not_mem_encode hmark hne hbyte

theorem encode_ne_nil (c : Char) : String.utf8EncodeChar c ≠ [] := by
  intro hnil
  have hlength := String.length_utf8EncodeChar c
  rw [hnil] at hlength
  exact absurd hlength.symm (Nat.ne_of_gt c.utf8Size_pos)

theorem head?_ne_some (h : ∀ rest, cs ≠ mark :: rest) : cs.head? ≠ some mark := by
  intro heq
  rcases List.head?_eq_some_iff.1 heq with ⟨rest, hrest⟩
  exact h rest hrest

/-- The first byte is that of an ASCII mark if the first character is the mark. -/
theorem head?_bytes (hmark : mark.toNat < 128) (cs : List Char) :
    (bytes cs).head? = some (byte mark) ↔ cs.head? = some mark := by
  cases cs with
  | nil => simp [bytes]
  | cons c cs =>
      rw [bytes_cons]
      by_cases hc : c = mark
      · rw [hc, encode_eq hmark]
        simp
      · have hnot := byte_not_mem_encode hmark hc
        simp only [List.head?_cons, Option.some.injEq, hc, iff_false]
        cases hencode : String.utf8EncodeChar c with
        | nil => exact absurd hencode (encode_ne_nil c)
        | cons b others =>
            rw [hencode, List.mem_cons, not_or] at hnot
            simpa using Ne.symm hnot.1

theorem getLast?_bytes (hmark : mark.toNat < 128) (cs : List Char) :
    (bytes cs).getLast? = some (byte mark) ↔ cs.getLast? = some mark := by
  rcases List.eq_nil_or_concat cs with rfl | ⟨init, c, rfl⟩
  · simp [bytes]
  · rw [List.concat_eq_append, bytes_append, List.getLast?_concat]
    have hbytes : bytes [c] = String.utf8EncodeChar c := by simp [bytes]
    rw [hbytes]
    by_cases hc : c = mark
    · rw [hc, encode_eq hmark]
      simp
    · have hnot := byte_not_mem_encode hmark hc
      simp only [Option.some.injEq, hc, iff_false]
      rcases List.eq_nil_or_concat (String.utf8EncodeChar c) with hnil | ⟨others, b, hencode⟩
      · exact absurd hnil (encode_ne_nil c)
      · rw [hencode, List.concat_eq_append, List.mem_append, List.mem_singleton, not_or] at hnot
        rw [hencode, List.concat_eq_append, ← List.append_assoc, List.getLast?_concat]
        simpa using Ne.symm hnot.2

/-- A test that does not tell the characters beyond ASCII apart. -/
def AsciiTest (p : Char → Bool) : Prop :=
  ∀ c d, 128 ≤ c.toNat → 128 ≤ d.toNat → p c = p d

namespace AsciiTest

variable {p : Char → Bool}

/-- A test that only ASCII characters pass. -/
theorem of_eq_true (h : ∀ c, p c = true → c.toNat < 128) : AsciiTest p := by
  have hfalse : ∀ c, 128 ≤ c.toNat → p c = false := by
    intro c hc
    rw [← Bool.not_eq_true]
    intro hpc
    exact absurd (h c hpc) (Nat.not_lt.2 hc)
  intro c d hc hd
  rw [hfalse c hc, hfalse d hd]

theorem of_not (hp : AsciiTest p) : AsciiTest (fun c => !p c) := by
  intro c d hc hd
  exact congrArg (!·) (hp c d hc hd)

theorem eq_of_mem_encode (hp : AsciiTest p) {b : UInt8} (hb : b ∈ String.utf8EncodeChar c) :
    p (ofByte b) = p c := by
  by_cases hc : c.toNat < 128
  · rw [encode_eq hc, List.mem_singleton] at hb
    rw [hb, ofByte_byte hc]
  · have hle := le_of_mem_encode (Nat.not_lt.1 hc) hb
    rw [← toNat_ofByte] at hle
    exact hp _ _ hle (Nat.not_lt.1 hc)

/-- The test of the first byte is that of the first character. -/
theorem any_head?_bytes (hp : AsciiTest p) (cs : List Char) :
    (bytes cs).head?.any (fun b => p (ofByte b)) = cs.head?.any p := by
  cases cs with
  | nil => rfl
  | cons c cs =>
      rw [bytes_cons]
      cases hbytes : String.utf8EncodeChar c with
      | nil => exact absurd hbytes (encode_ne_nil c)
      | cons b others => exact hp.eq_of_mem_encode (by simp [hbytes])

/-- The test stops at the same place, whether it is made of the bytes or of the characters. -/
theorem takeWhile_bytes (hp : AsciiTest p) (cs : List Char) :
    (bytes cs).takeWhile (fun b => p (ofByte b)) = bytes (cs.takeWhile p) := by
  induction cs with
  | nil => rfl
  | cons c cs ih =>
      have hencode : ∀ b ∈ String.utf8EncodeChar c, p (ofByte b) = p c :=
        fun b hb => hp.eq_of_mem_encode hb
      rw [bytes_cons]
      cases hpc : p c with
      | true =>
          rw [List.takeWhile_append_of_pos (fun b hb => (hencode b hb).trans hpc), ih,
            List.takeWhile_cons_of_pos hpc, bytes_cons]
      | false =>
          rw [List.takeWhile_cons_of_neg (by simp [hpc])]
          -- The first byte already fails.
          cases hbytes : String.utf8EncodeChar c with
          | nil => exact absurd hbytes (encode_ne_nil c)
          | cons b others =>
              have hb : p (ofByte b) = false := (hencode b (by simp [hbytes])).trans hpc
              rw [List.cons_append, List.takeWhile_cons_of_neg (by simp [hb])]
              rfl

end AsciiTest

/-! ## Cuts -/

/-- What follows the first `offset` bytes. -/
def from? (offset : Nat) (cs : List Char) : Option (List Char) :=
  (splitBytes? offset [] cs).map (·.2)

/-- The first `offset` bytes. -/
def upTo? (offset : Nat) (cs : List Char) : Option (List Char) :=
  (splitBytes? offset [] cs).map (·.1)

/-- The bytes from `start` up to, not including, `stop`. -/
def between? (start stop : Nat) (cs : List Char) : Option (List Char) :=
  (⟨start, stop⟩ : Span).sliceChars? cs

theorem from?_byteLength (front rest : List Char) :
    from? (byteLength front) (front ++ rest) = some rest := by
  rw [from?, splitBytes?_byteLength]
  rfl

theorem upTo?_byteLength (front rest : List Char) :
    upTo? (byteLength front) (front ++ rest) = some front := by
  rw [upTo?, splitBytes?_byteLength]
  rfl

theorem between?_byteLength (front inside rest : List Char) :
    between? (byteLength front) (byteLength front + byteLength inside) (front ++ inside ++ rest) =
      some inside := by
  have hfront := splitBytes?_byteLength [] front (inside ++ rest)
  have hinside := splitBytes?_byteLength [] inside rest
  simp only [List.reverse_nil, List.nil_append] at hfront hinside
  simp [between?, Span.sliceChars?, hfront, hinside]

/-- A text is cut where a part of it ends. -/
theorem splitBytes?_eq_some_iff {offset : Nat} {before : List Char} :
    splitBytes? offset front cs = some (before, rest) ↔
      ∃ part, before = front.reverse ++ part ∧ cs = part ++ rest ∧ byteLength part = offset := by
  constructor
  · intro h
    induction cs generalizing front offset with
    | nil =>
        rw [splitBytes?] at h
        split at h
        · next hzero =>
            cases h
            exact ⟨[], by simp, rfl, hzero.symm⟩
        · cases h
    | cons c cs ih =>
        rw [splitBytes?] at h
        split at h
        · next hzero =>
            cases h
            exact ⟨[], by simp, rfl, hzero.symm⟩
        · split at h
          · next hle =>
              rcases ih h with ⟨part, hbefore, hcs, hlength⟩
              refine ⟨c :: part, by simp [hbefore], by simp [hcs], ?_⟩
              rw [byteLength_cons, hlength]
              omega
          · cases h
  · rintro ⟨part, rfl, rfl, rfl⟩
    exact splitBytes?_byteLength front part rest

theorem from?_eq_some_iff {offset : Nat} :
    from? offset cs = some rest ↔ ∃ part, cs = part ++ rest ∧ byteLength part = offset := by
  rw [from?, Option.map_eq_some_iff]
  constructor
  · rintro ⟨⟨before, rest'⟩, hsplit, rfl⟩
    rcases splitBytes?_eq_some_iff.1 hsplit with ⟨part, _, hcs, hlength⟩
    exact ⟨part, hcs, hlength⟩
  · rintro ⟨part, hcs, hlength⟩
    exact ⟨(part, rest), splitBytes?_eq_some_iff.2 ⟨part, rfl, hcs, hlength⟩, rfl⟩

theorem upTo?_eq_some_iff {offset : Nat} :
    upTo? offset cs = some front ↔ ∃ rest, cs = front ++ rest ∧ byteLength front = offset := by
  rw [upTo?, Option.map_eq_some_iff]
  constructor
  · rintro ⟨⟨before, rest⟩, hsplit, rfl⟩
    rcases splitBytes?_eq_some_iff.1 hsplit with ⟨part, rfl, hcs, hlength⟩
    exact ⟨rest, hcs, hlength⟩
  · rintro ⟨rest, hcs, hlength⟩
    exact ⟨(front, rest), splitBytes?_eq_some_iff.2 ⟨front, rfl, hcs, hlength⟩, rfl⟩

theorem from?_le {offset : Nat} (h : from? offset cs = some rest) : offset ≤ byteLength cs := by
  rcases from?_eq_some_iff.1 h with ⟨part, rfl, hlength⟩
  rw [byteLength_append]
  omega

/-- Behind the first byte less is left. -/
theorem from?_length {offset : Nat} (h : from? (offset + 1) cs = some rest) :
    rest.length < cs.length := by
  rcases from?_eq_some_iff.1 h with ⟨part, rfl, hlength⟩
  have hne : part ≠ [] := by
    rintro rfl
    cases hlength
  have hpos := List.length_pos_iff.2 hne
  rw [List.length_append]
  omega

/-- Where `mark` stands first. -/
def offsetOf? (mark cs : List Char) : Option Nat :=
  (breakOn? mark cs).map (byteLength ·.1)

theorem offsetOf?_append (h : mark ∉ front) (rest : List Char) :
    offsetOf? [mark] (front ++ mark :: rest) = some (byteLength front) := by
  have hcut : breakOn? [mark] (front ++ mark :: rest) = some (front, rest) :=
    breakOn?_eq_some_iff.2 ⟨by simp, firstAt_singleton.2 h⟩
  rw [offsetOf?, hcut]
  rfl

theorem offsetOf?_of_not_mem (h : mark ∉ cs) : offsetOf? [mark] cs = none := by
  rw [offsetOf?, breakOn?_of_not_mem h]
  rfl

theorem offsetOf?_eq_zero_iff : offsetOf? [mark] cs = some 0 ↔ cs.head? = some mark := by
  constructor
  · intro h
    rcases Option.map_eq_some_iff.1 h with ⟨⟨before, rest⟩, hbreak, hlength⟩
    rcases breakOn?_eq_some_iff.1 hbreak with ⟨rfl, _⟩
    have hnil : before = [] := eq_nil_of_byteLength hlength
    rw [hnil]
    rfl
  · intro h
    rcases List.head?_eq_some_iff.1 h with ⟨rest, rfl⟩
    exact offsetOf?_append List.not_mem_nil rest

theorem breakWithinOnto_append (h : mark ∉ inside) (limit : Nat) (front rest : List Char) :
    breakWithinOnto mark limit front (inside ++ mark :: rest) =
      if byteLength inside ≤ limit then some (front.reverse ++ inside, rest) else none := by
  induction inside generalizing limit front with
  | nil => simp [breakWithinOnto]
  | cons c inside ih =>
      rw [List.mem_cons, not_or] at h
      have hc : c ≠ mark := Ne.symm h.1
      rw [List.cons_append, breakWithinOnto, if_neg hc, ih h.2, byteLength_cons]
      by_cases hsize : c.utf8Size ≤ limit
      · have hle : byteLength inside ≤ limit - c.utf8Size ↔
            c.utf8Size + byteLength inside ≤ limit := by omega
        simp [hsize, hle]
      · have hle : ¬c.utf8Size + byteLength inside ≤ limit := by omega
        rw [if_neg hsize, if_neg hle]

/-- The first mark is near enough, or none is. -/
theorem breakWithin?_append (h : mark ∉ front) (limit : Nat) (rest : List Char) :
    breakWithin? mark limit (front ++ mark :: rest) =
      if byteLength front ≤ limit then some (front, rest) else none :=
  breakWithinOnto_append h limit [] rest

theorem breakWithin?_of_not_mem (h : mark ∉ cs) (limit : Nat) :
    breakWithin? mark limit cs = none := by
  rw [Option.eq_none_iff_forall_ne_some]
  rintro ⟨before, rest⟩ hsome
  exact h (by simp [breakWithin?_eq_some hsome])

/-- An ASCII mark is as far away in bytes as in characters, if it is looked for in as many bytes. -/
theorem findIdx?_take_bytes (hmark : mark.toNat < 128) (limit : Nat) (cs : List Char) :
    ((bytes cs).take (limit + 1)).findIdx? (· == byte mark) =
      (breakWithin? mark limit cs).map fun found => byteLength found.1 := by
  by_cases hmem : mark ∈ cs
  · rcases List.eq_append_cons_of_mem hmem with ⟨front, rest, rfl, hfront⟩
    have hnot : ∀ b ∈ (bytes front).take (limit + 1), (b == byte mark) = false := by
      intro b hb
      rw [beq_eq_false_iff_ne]
      rintro rfl
      exact byte_not_mem_bytes hmark hfront (List.mem_of_mem_take hb)
    rw [bytes_append_mark hmark, List.take_append, List.findIdx?_append, List.findIdx?_eq_none_iff.2 hnot,
      length_bytes, breakWithin?_append hfront]
    by_cases hle : byteLength front ≤ limit
    · -- All bytes in front of the mark are looked at, and the mark is.
      have hlength : ((bytes front).take (limit + 1)).length = byteLength front := by
        rw [List.length_take, length_bytes]
        omega
      have hroom : limit + 1 - byteLength front = limit - byteLength front + 1 := by omega
      rw [if_pos hle, hlength, hroom, List.take_succ_cons, List.findIdx?_cons]
      simp
    · have hroom : limit + 1 - byteLength front = 0 := by omega
      rw [if_neg hle, hroom]
      rfl
  · rw [breakWithin?_of_not_mem hmem, Option.map_none, List.findIdx?_eq_none_iff]
    intro b hb
    rw [beq_eq_false_iff_ne]
    rintro rfl
    exact byte_not_mem_bytes hmark hmem (List.mem_of_mem_take hb)

/-- An ASCII mark can be cut off: a text is cut in front of it and behind it. -/
theorem cuts_append (hmark : mark.toNat < 128) (front rest : List Char) :
    upTo? (byteLength front) (front ++ mark :: rest) = some front ∧
      from? (byteLength front) (front ++ mark :: rest) = some (mark :: rest) ∧
      from? (byteLength front + 1) (front ++ mark :: rest) = some rest := by
  refine ⟨upTo?_byteLength front _, from?_byteLength front _, ?_⟩
  rw [from?_eq_some_iff]
  exact ⟨front ++ [mark], by simp, by simp [utf8Size_eq_one hmark]⟩

end Text
end TemplateMarkup
