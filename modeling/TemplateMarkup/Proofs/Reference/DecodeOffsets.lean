import TemplateMarkup.Proofs.Reference.Decode
import TemplateMarkup.Proofs.Text.Offsets

/-!
# Decoding references at byte offsets

`Reference.decodeBytes` looks for the offsets of the ampersands and of the semicolons behind them,
and cuts the text there. No cut fails, and what comes of it is the decoded text
(`Reference.decodeBytes_eq`).
-/

namespace TemplateMarkup
namespace Reference

variable {resolve : List Char → Option Char} {front after cs : List Char}

/-- Reads the reference behind an ampersand; `none` where a cut fails, and `some none` where there
is no reference. -/
def readBytes? (resolve : List Char → Option Char) (after : List Char) :
    Option (Option (Char × List Char)) :=
  match (Text.offsetOf? [';'] after).filter fun semicolon =>
      0 < semicolon && semicolon ≤ maxBodyBytes with
  | none => some none
  | some semicolon =>
      match Text.upTo? semicolon after with
      | none => none
      | some body =>
          match resolve body with
          | none => some none
          | some decoded =>
              (Text.from? (semicolon + 1) after).map fun rest => some (decoded, rest)

theorem readBytes?_eq (resolve : List Char → Option Char) (after : List Char) :
    readBytes? resolve after = some (read? resolve after) := by
  by_cases hmem : ';' ∈ after
  · rcases List.eq_append_cons_of_mem hmem with ⟨body, rest, rfl, hbody⟩
    rcases Text.cuts_append (show ';'.toNat < 128 by decide) body rest with ⟨hcut, _, hrest⟩
    rw [readBytes?, read?, Text.offsetOf?_append hbody, Text.breakWithin?_append hbody]
    cases body with
    | nil => simp [Option.filter]
    | cons b body =>
        have hpos : 0 < Text.byteLength (b :: body) := Text.byteLength_pos (List.cons_ne_nil b body)
        by_cases hle : Text.byteLength (b :: body) ≤ maxBodyBytes
        · simp only [Option.filter, hpos, hle, decide_true, Bool.and_self, if_true, hcut, hrest]
          cases resolve (b :: body) with
          | none => rfl
          | some decoded => rfl
        · simp only [Option.filter, hpos, hle, decide_true, decide_false, Bool.and_false,
            Bool.false_eq_true, if_false]
  · rw [readBytes?, read?, Text.offsetOf?_of_not_mem hmem, Text.breakWithin?_of_not_mem hmem]
    rfl

/-- Decodes a text; `none` where a cut fails. -/
def decodeBytes (resolve : List Char → Option Char) (cs : List Char) : Option (List Char) :=
  match Text.offsetOf? ['&'] cs with
  | none => some cs
  | some ampersand =>
      match Text.upTo? ampersand cs, _hafter : Text.from? (ampersand + 1) cs with
      | some front, some after =>
          match _hread : readBytes? resolve after with
          | none => none
          | some none => (decodeBytes resolve after).map (front ++ '&' :: ·)
          | some (some (decoded, rest)) => (decodeBytes resolve rest).map (front ++ decoded :: ·)
      | _, _ => none
termination_by cs.length
decreasing_by
  · exact Text.from?_length _hafter
  · rw [readBytes?_eq, Option.some.injEq] at _hread
    exact Nat.lt_trans (read?_length _hread) (Text.from?_length _hafter)

/-- No cut fails. -/
theorem decodeBytes_eq (resolve : List Char → Option Char) (cs : List Char) :
    decodeBytes resolve cs = some (decode resolve cs) := by
  induction hlength : cs.length using Nat.strongRecOn generalizing cs with
  | ind n ih =>
      subst hlength
      by_cases hmem : '&' ∈ cs
      · rcases List.eq_append_cons_of_mem hmem with ⟨front, after, rfl, hfront⟩
        rcases Text.cuts_append (show '&'.toNat < 128 by decide) front after with
          ⟨hcut, _, hafter⟩
        have hlt : after.length < (front ++ '&' :: after).length := by
          rw [List.length_append, List.length_cons]
          omega
        rw [decodeBytes, Text.offsetOf?_append hfront, decode_append hfront]
        dsimp only
        split
        · next front' after' hcut' hafter' =>
            cases hcut.symm.trans hcut'
            cases hafter.symm.trans hafter'
            split
            · next hread =>
                rw [readBytes?_eq] at hread
                cases hread
            · next hread =>
                rw [readBytes?_eq, Option.some.injEq] at hread
                rw [ih _ hlt after rfl, decode_ampersand hread]
                rfl
            · next decoded rest hread =>
                rw [readBytes?_eq, Option.some.injEq] at hread
                rw [ih _ (Nat.lt_trans (read?_length hread) hlt) rest rfl, decode_reference hread]
                rfl
        · next hnone => exact absurd hafter (hnone front after hcut)
      · rw [decodeBytes, Text.offsetOf?_of_not_mem hmem, decode_of_not_mem hmem]

end Reference
end TemplateMarkup
