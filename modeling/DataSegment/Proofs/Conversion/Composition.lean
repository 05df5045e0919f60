import DataSegment.Proofs.Conversion.Locality

namespace DataSegment

open Assembly Listing
open Text (decimal)

namespace Settings

variable (settings : Settings) (translation : Location → Text)

/-- The text of a segment whose lines have a translation. -/
def segmentText (segment : Segment) : Text :=
  ['\n'] ++ (settings.header? segment.opening.raw).getD [] ++ "\n.align ".toList ++
    decimal settings.alignment.toNat ++ ['\n'] ++ segment.statements.flatMap translation

/-- The text of a listing whose lines have a translation and whose labels are known. -/
def listingText (segments : List Segment) (defined : Names) : Text :=
  segments.flatMap (settings.segmentText translation) ++ ['\n'] ++
    globalLines settings.symbolPrefix defined

end Settings

namespace Session

variable {environment : Environment} {session : Session} {source text : Text}

theorem passes_of_convert (converted : (session.convert environment source).1 = .ok text) :
    (environment.relevant session.file session.line source).findSome? Finding.failure? = none := by
  rw [convert_eq] at converted
  split at converted
  · contradiction
  · rename_i passes
    exact passes

theorem passes_statement
    (passes : (environment.relevant session.file session.line source).findSome?
      Finding.failure? = none)
    {segment : Segment} (member : segment ∈ segments environment.settings
      (locations session.file session.line (Text.lines source))) {line : Location}
    (stated : line ∈ segment.statements) : (environment.statementFinding line).failure? = none := by
  apply List.findSome?_eq_none_iff.1 passes
  refine List.mem_flatMap.2 ⟨segment, member, List.mem_cons_of_mem _ ?_⟩
  exact List.mem_map.2 ⟨line, stated, rfl⟩

/-- Behind what is pending stands the text of the listing, with all labels so far. -/
theorem convert_of_passes
    (passes : (environment.relevant session.file session.line source).findSome?
      Finding.failure? = none) :
    let symbolPrefix := environment.settings.symbolPrefix
    let parts := segments environment.settings
      (locations session.file session.line (Text.lines source))
    let converted := session.convert environment source
    converted.2.defined = session.defined.insertAll (parts.flatMap environment.segmentLabels) ∧
      converted.1 = .ok (session.pending.flatMap (Output.render symbolPrefix) ++
        environment.settings.listingText environment.translation parts converted.2.defined) := by
  have opens : ∀ segment ∈ segments environment.settings
      (locations session.file session.line (Text.lines source)),
      environment.settings.opens segment.opening.raw = true :=
    fun segment member => (mem_segments member).2.1
  obtain ⟨printed, labels⟩ := environment.translated_of_accepted passes
  have text := environment.render_findings opens passes
  rw [Environment.relevant] at printed labels
  rw [environment.filterMap_label_findings] at labels
  have defined := session.defined_reading environment source
  rw [labels] at defined
  rw [convert_eq, passes]
  refine ⟨defined, ?_⟩
  dsimp only
  rw [pending_reading, printed, program, List.flatMap_append, text, Settings.listingText,
    List.append_assoc, List.append_assoc, List.append_assoc]
  rfl

end Session

end DataSegment
