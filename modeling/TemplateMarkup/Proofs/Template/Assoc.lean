import Mathlib.Data.List.Induction
import Mathlib.Data.List.Nodup
import TemplateMarkup.Template.Assoc

/-!
# Entries of ordered maps

Setting a key changes the value under it and appends the key if it is new. A map that is made by
setting entries one after the other is therefore told by the entries:

* `Assoc.keys_ofEntries` — its keys are theirs, each where it stands first,
* `Assoc.lookup_ofEntries` — under each key it has the last of their values,
* `Assoc.filter_ofEntries` — leaving out keys in it is leaving out entries.
-/

namespace TemplateMarkup
namespace Assoc

variable {α : Type} {key k : String} {value : α} {entry : String × α}
  {entries : List (String × α)}

/-! ## Setting a key -/

theorem mem_set (h : entry ∈ set key value entries) : entry ∈ entries ∨ entry = (key, value) := by
  induction entries with
  | nil => exact .inr (List.mem_singleton.1 h)
  | cons first entries ih =>
      unfold set at h
      split at h
      · rcases List.mem_cons.1 h with heq | hmem
        · exact .inr heq
        · exact .inl (List.mem_cons_of_mem _ hmem)
      · rcases List.mem_cons.1 h with rfl | hmem
        · exact .inl List.mem_cons_self
        · rcases ih hmem with hold | heq
          · exact .inl (List.mem_cons_of_mem _ hold)
          · exact .inr heq

theorem mem_set_self (key : String) (value : α) (entries : List (String × α)) :
    (key, value) ∈ set key value entries := by
  induction entries with
  | nil => exact List.mem_singleton_self _
  | cons entry entries ih =>
      unfold set
      split
      · exact List.mem_cons_self
      · exact List.mem_cons_of_mem _ ih

/-- Setting a key adds it to the keys, unless it is there. -/
theorem map_fst_set (key : String) (value : α) (entries : List (String × α)) :
    (set key value entries).map (·.1) =
      if key ∈ entries.map (·.1) then entries.map (·.1) else entries.map (·.1) ++ [key] := by
  induction entries with
  | nil => rfl
  | cons entry entries ih =>
      unfold set
      split
      · next heq => simp [heq]
      · next hne =>
          rw [List.map_cons, ih]
          by_cases hmem : key ∈ entries.map (·.1)
          · simp only [List.map_cons, List.mem_cons, hmem, or_true, if_true]
          · simp only [List.map_cons, List.mem_cons, hmem, Ne.symm hne, or_self, if_false,
              List.cons_append]

/-- Setting a key puts its value in the place of the old one, or at the end. -/
theorem map_snd_set (key : String) (value : α) (entries : List (String × α)) :
    ∃ front old back, entries.map (·.2) = front ++ old ++ back ∧
      (set key value entries).map (·.2) = front ++ value :: back := by
  induction entries with
  | nil => exact ⟨[], [], [], rfl, rfl⟩
  | cons entry entries ih =>
      unfold set
      split
      · exact ⟨[], [entry.2], entries.map (·.2), rfl, rfl⟩
      · rcases ih with ⟨front, old, back, hentries, hset⟩
        exact ⟨entry.2 :: front, old, back, by simp [hentries], by simp [hset]⟩

theorem nodup_keys_set (h : (entries.map (·.1)).Nodup) (key : String) (value : α) :
    ((set key value entries).map (·.1)).Nodup := by
  rw [map_fst_set]
  split
  · exact h
  · next hnot =>
      rw [← List.concat_eq_append]
      exact h.concat hnot

theorem mem_keys_set : k ∈ (set key value entries).map (·.1) ↔ k ∈ entries.map (·.1) ∨ k = key := by
  rw [map_fst_set]
  split
  · next hmem =>
      constructor
      · exact .inl
      · rintro (hk | rfl)
        · exact hk
        · exact hmem
  · rw [List.mem_append, List.mem_singleton]

/-- The value that has been set is the only one under its key. -/
theorem eq_of_mem_set (h : (entries.map (·.1)).Nodup) (hentry : entry ∈ set key value entries)
    (hkey : entry.1 = key) : entry = (key, value) :=
  List.inj_on_of_nodup_map (nodup_keys_set h key value) hentry (mem_set_self key value entries)
    hkey

theorem lookup_cons_eq (entry : String × α) (entries : List (String × α)) (k : String) :
    (entry :: entries).lookup k = if k = entry.1 then some entry.2 else entries.lookup k := by
  rw [List.lookup_cons]
  by_cases hk : k = entry.1
  · simp [hk]
  · simp [hk, beq_eq_false_iff_ne.2 hk]

theorem lookup_set (key : String) (value : α) (entries : List (String × α)) (k : String) :
    (set key value entries).lookup k = if k = key then some value else entries.lookup k := by
  induction entries with
  | nil => exact lookup_cons_eq (key, value) [] k
  | cons entry entries ih =>
      by_cases hentry : entry.1 = key
      · -- The entry is replaced, and hides whatever is under its key further behind.
        rw [set, if_pos hentry, lookup_cons_eq, lookup_cons_eq, hentry]
        by_cases hk : k = key
        · rw [if_pos hk, if_pos hk]
        · rw [if_neg hk, if_neg hk, if_neg hk]
      · rw [set, if_neg hentry, lookup_cons_eq, lookup_cons_eq, ih]
        by_cases hk : k = entry.1
        · rw [if_pos hk, if_pos hk, if_neg (hk ▸ hentry)]
        · rw [if_neg hk, if_neg hk]

/-- A key that is left out is left out with what it has been set to. -/
theorem filter_set (p : String → Bool) (key : String) (value : α) (entries : List (String × α)) :
    (set key value entries).filter (p ·.1) =
      if p key then set key value (entries.filter (p ·.1)) else entries.filter (p ·.1) := by
  induction entries with
  | nil => by_cases hp : p key <;> simp [set, hp]
  | cons entry entries ih =>
      by_cases hentry : entry.1 = key
      · by_cases hp : p key <;> simp [set, hentry, hp]
      · rw [set, if_neg hentry, List.filter_cons, List.filter_cons, ih]
        by_cases hfirst : p entry.1 <;> by_cases hp : p key <;> simp [set, hentry, hfirst, hp]

/-! ## Setting entries one after the other -/

@[simp] theorem ofEntries_nil : ofEntries ([] : List (String × α)) = [] := rfl

theorem ofEntries_concat (entries : List (String × α)) (entry : String × α) :
    ofEntries (entries ++ [entry]) = set entry.1 entry.2 (ofEntries entries) := by
  simp [ofEntries]

/-- The keys are those of the entries, each where it stands first. -/
theorem keys_ofEntries (entries : List (String × α)) :
    (ofEntries entries).map (·.1) = (entries.map (·.1)).eraseDups := by
  -- From the end, since the last entry is the one that is set last.
  induction entries using List.reverseRecOn with
  | nil => rfl
  | append_singleton entries entry ih =>
      rw [ofEntries_concat, map_fst_set, ih, List.map_append, List.eraseDups_append]
      by_cases hmem : entry.1 ∈ entries.map (·.1)
      · simp [List.mem_eraseDups.2 hmem, List.removeAll, hmem]
      · simp [List.mem_eraseDups, List.removeAll, hmem, List.eraseDups_cons]

/-- The value of a key is the last one among the entries. -/
theorem lookup_ofEntries (entries : List (String × α)) (key : String) :
    (ofEntries entries).lookup key =
      ((entries.filter (·.1 = key)).getLast?).map (·.2) := by
  induction entries using List.reverseRecOn with
  | nil => rfl
  | append_singleton entries entry ih =>
      rw [ofEntries_concat, lookup_set, ih, List.filter_append]
      by_cases hkey : key = entry.1
      · simp [hkey]
      · simp [hkey, Ne.symm hkey]

theorem filter_ofEntries (p : String → Bool) (entries : List (String × α)) :
    (ofEntries entries).filter (p ·.1) = ofEntries (entries.filter (p ·.1)) := by
  induction entries using List.reverseRecOn with
  | nil => rfl
  | append_singleton entries entry ih =>
      rw [ofEntries_concat, filter_set, ih, List.filter_append]
      by_cases hp : p entry.1
      · simp [hp, ofEntries_concat]
      · simp [hp]

end Assoc
end TemplateMarkup
