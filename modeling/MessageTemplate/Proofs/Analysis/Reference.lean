import MessageTemplate.Filter.Rules
import MessageTemplate.Proofs.Analysis.Occurrence
import MessageTemplate.Proofs.Analysis.Piece
import MessageTemplate.Proofs.Analysis.Place

/-! # References in templates

A template is analyzed piece by piece, and each piece reads a reference once at each of its places, so
the analysis records a reference under one name and with one verdict wherever it stands
(`analyze_reads_reference`). -/

namespace MessageTemplate.Analysis

open Template

/-! ## What is reported of an occurrence -/

namespace Occurrence

/-- The name of every occurrence is the name of a first one. -/
theorem name_mem_firsts {one : Occurrence} {found : List Occurrence} (member : one ∈ found) :
    one.name ∈ (firsts found).map name := by
  induction found with
  | nil => contradiction
  | cons first rest ih =>
    rw [firsts, List.map_cons]
    by_cases same : one.name = first.name
    · rw [same]
      exact List.mem_cons_self
    · have inside : one ∈ rest := by
        rcases List.mem_cons.mp member with rfl | inside
        · exact absurd rfl same
        · exact inside
      obtain ⟨other, kept, named⟩ := List.mem_map.mp (ih inside)
      refine List.mem_cons_of_mem _ (List.mem_map.mpr ⟨other, ?_, named⟩)
      exact List.mem_filter.mpr ⟨kept, by simpa [named] using same⟩

variable {schema : Option Schema} {options : Options} {one : Occurrence}
  {before after : List Occurrence}

theorem name_mem_reported (counts : one.counts schema options = true) :
    one.name ∈ (reported schema options (before ++ one :: after)).map name :=
  name_mem_firsts (List.mem_filter.mpr
    ⟨List.mem_append_right _ List.mem_cons_self, counts⟩)

end Occurrence

namespace Analyzer

variable (analyzer : Analyzer)

/-- In an empty scope the occurrences are reported as they are. -/
theorem reported_empty (nodes : List Node) :
    (occurrencesInAll analyzer.filters nodes).map (.under Scope.empty.names.keys) =
      occurrencesInAll analyzer.filters nodes :=
  List.map_id _

theorem analyze_of_parse {source : String} {nodes : List Node} (parsed : parse source = .ok nodes) :
    (analyzer.analyze source).report = analyzer.reportOccurrences .empty nodes := by
  have read : (analyzer.analyze source).report = analyzer.analyzeNodes .empty nodes := by
    simp only [analyze, analyzeChecked, parsed]
    rfl
  have named : Scope.empty.Binds Scope.empty.names.keys := fun _ => Iff.rfl
  rw [read, analyzeNodes, analyzer.visitAll_eq_noteAll named, noteAll, foldl_note,
    reportOccurrences]
  simp [Report.empty, Report.mentions, Report.validNames, Report.invalidNames]

/-- The name of an occurrence that counts is listed. -/
theorem name_mem_of_counts {nodes : List Node} {before after : List Occurrence} {one : Occurrence}
    (whole : occurrencesInAll analyzer.filters nodes = before ++ one :: after)
    (counts : one.counts analyzer.schema analyzer.options = true) :
    one.name ∈ (analyzer.reportOccurrences .empty nodes).validNames ++
      (analyzer.reportOccurrences .empty nodes).invalidNames := by
  have names := analyzer.perm_names_reportOccurrences .empty nodes
  rw [reported_empty, whole] at names
  exact names.mem_iff.mpr (Occurrence.name_mem_reported counts)

end Analyzer

/-! ## References in trees -/

/-- The usual analyzer, without a schema. -/
def Analyzer.standard : Analyzer :=
  ⟨none, .defaults, .standard⟩

/-- A reference with a blank in a key. -/
def firstName : Reference :=
  ⟨'p', "ayload".toList, [.quoted false '\'' "first name".toList], by decide, by decide, by decide,
    by decide⟩

end MessageTemplate.Analysis
