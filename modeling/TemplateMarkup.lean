import TemplateMarkup.Main
import TemplateMarkup.Proofs.Check.MachineReport
import TemplateMarkup.Proofs.Check.Schedule
import TemplateMarkup.Proofs.Check.Spans
import TemplateMarkup.Proofs.Expression.Literal
import TemplateMarkup.Proofs.Expression.LoopParts
import TemplateMarkup.Proofs.Markup.Parse
import TemplateMarkup.Proofs.Reference.Numerals
import TemplateMarkup.Proofs.Scan.Oversized
import TemplateMarkup.Proofs.Template.Failure
import TemplateMarkup.Proofs.Template.Fitting
import TemplateMarkup.Proofs.Template.Flags
import TemplateMarkup.Proofs.Template.Plain
import TemplateMarkup.Proofs.Template.Reachable
import TemplateMarkup.Proofs.Template.Spaces
