import TemplateMarkup.Proofs.Template.Assoc
import TemplateMarkup.Proofs.Template.Growth

/-!
# The attributes of an element

An element keeps its attributes twice: as the list that its start tag has given it, and as a map
from their names to their values. Structural directives claim attributes from both, by name:

* `Element.Mapped` — the map is made from the entries of the list,
* `Element.Sheds.mapped` — claiming attributes keeps it so,
* `parse_attributes` — what the list and the map of a parsed element hold.
-/

namespace TemplateMarkup

namespace Element

variable {e e' : Element}

/-- The map tells the last value of each name in the list. -/
def Mapped (e : Element) : Prop :=
  e.attributeMap = Assoc.ofEntries (e.attributes.map fun a => (a.name, a.value))

theorem mapped_unread (tag : StartTag) (parent : Option ElementId) : (unread tag parent).Mapped :=
  rfl

/-- Attributes are claimed by name, so what is left of the map is made from what is left of the
list. -/
theorem Sheds.mapped (h : Sheds e e') (he : e.Mapped) : e'.Mapped := by
  rcases h with ⟨names, _, hattributes, hmap⟩
  calc
    e'.attributeMap = e.attributeMap.filter (·.1 ∉ names) := hmap
    _ = (Assoc.ofEntries (e.attributes.map fun a => (a.name, a.value))).filter (·.1 ∉ names) := by
      rw [he]
    _ = Assoc.ofEntries ((e.attributes.map fun a => (a.name, a.value)).filter (·.1 ∉ names)) :=
      Assoc.filter_ofEntries (fun key => key ∉ names) _
    _ = Assoc.ofEntries (e'.attributes.map fun a => (a.name, a.value)) := by
      rw [List.filter_map, hattributes]
      rfl

theorem Grows.mapped (h : Grows e e') (he : e.Mapped) : e'.Mapped := by
  rw [Mapped, h.map_eq, h.attributes_eq]
  exact he

theorem Mapped.keys_eq (h : e.Mapped) :
    e.attributeMap.map (·.1) = (e.attributes.map (·.name)).eraseDups := by
  rw [h, Assoc.keys_ofEntries, List.map_map]
  rfl

theorem Mapped.lookup_eq (h : e.Mapped) (name : String) :
    e.attributeMap.lookup name =
      ((e.attributes.filter (·.name = name)).getLast?).map (·.value) := by
  rw [h, Assoc.lookup_ofEntries, List.filter_map, List.getLast?_map, Option.map_map]
  rfl

end Element

variable {options : Options} {source : String} {parsed : Parsed}

/-- The attributes that a parsed element has left. Its map has their names for its keys, each name
where it stands first, and under each name the value of the last attribute of that name. The list is
that of the start tag without the attributes of some structural names. -/
theorem parse_attributes (h : parse options source = .ok parsed) (id : ElementId) (e : Element)
    (he : parsed.template.elements[id]? = some e) :
    e.attributeMap.map (·.1) = (e.attributes.map (·.name)).eraseDups ∧
    (∀ name, e.attributeMap.lookup name =
      ((e.attributes.filter (·.name = name)).getLast?).map (·.value)) ∧
    ∃ tag, (Event.startTags (scan source))[id]? = some tag ∧
      ∃ names ⊆ Element.structuralNames, e.attributes = tag.attributes.filter (·.name ∉ names) := by
  rcases parse_read h he with ⟨tag, htag, t, parent, first, warnings, hread, hgrows⟩
  have hsheds := Element.ofStartTag_sheds hread
  have hmapped : e.Mapped := hgrows.mapped (hsheds.mapped (Element.mapped_unread tag parent))
  refine ⟨hmapped.keys_eq, hmapped.lookup_eq, tag, htag, ?_⟩
  rcases hsheds with ⟨names, hnames, hattributes, _⟩
  exact ⟨names, hnames, hgrows.attributes_eq.trans hattributes⟩

/-- The bound key is claimed and the literal one stays; of the two titles the last one counts. -/
theorem parse_attributes_repeated :
    ∃ parsed e, parse {} "<p title=a :key=k title=b key=c></p>" = .ok parsed ∧
      parsed.template.elements[0]? = some e ∧
      e.attributes.map (·.name) = ["title", "title", "key"] ∧
      e.attributeMap.map (·.1) = ["title", "key"] ∧
      e.attributeMap.lookup "title" = some "b" ∧
      ∃ tag, (Event.startTags (scan "<p title=a :key=k title=b key=c></p>"))[0]? = some tag ∧
        ∃ names ⊆ Element.structuralNames,
          e.attributes = tag.attributes.filter (·.name ∉ names) := by
  have hread : ((parse {} "<p title=a :key=k title=b key=c></p>").map fun parsed =>
      parsed.template.elements[0]?.map (·.attributes)).toOption =
      some (some [⟨"title", "a", ⟨3, 10⟩⟩, ⟨"title", "b", ⟨18, 25⟩⟩, ⟨"key", "c", ⟨26, 31⟩⟩]) := by
    decide +kernel
  cases h : parse {} "<p title=a :key=k title=b key=c></p>" with
  | error error =>
      rw [h] at hread
      cases hread
  | ok parsed =>
      rw [h] at hread
      rcases Option.map_eq_some_iff.1 (Option.some.inj hread) with ⟨e, he, hattributes⟩
      rcases parse_attributes h 0 e he with ⟨hkeys, hlookup, htag⟩
      refine ⟨parsed, e, rfl, he, ?_, ?_, ?_, htag⟩
      · rw [hattributes]
        rfl
      · rw [hkeys, hattributes]
        decide
      · rw [hlookup, hattributes]
        decide

end TemplateMarkup
