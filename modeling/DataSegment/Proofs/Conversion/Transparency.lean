import DataSegment.Proofs.Conversion.Accounting
import DataSegment.Proofs.Conversion.Composition
import DataSegment.Proofs.Conversion.Letters
import DataSegment.Proofs.Conversion.Safety
import DataSegment.Proofs.Text.Latin

namespace DataSegment

open Assembly Listing
open Text (foreign isOwn)
open Text.Latin (Encodable decode encode highBytes)

namespace Text.Latin

theorem toNat_lt_of_isOwn {letter : Char} (own : isOwn letter = true) : letter.toNat < 128 := by
  simp only [isOwn, Bool.or_eq_true, Bool.and_eq_true, beq_iff_eq, decide_eq_true_eq] at own
  rcases own with rfl | ⟨_, below⟩
  · decide
  · exact Nat.lt_of_le_of_lt (UInt32.le_iff_toNat_le.1 below) (by decide)

theorem encodable_of_own {text : Text} (own : foreign text = []) : Encodable text := by
  intro letter member
  have small := toNat_lt_of_isOwn (Text.foreign_eq_nil.1 own letter member)
  omega

/-- The letters that the output writes of its own accord are ASCII. -/
theorem highBytes_foreign (text : Text) : highBytes (foreign text) = highBytes text := by
  rw [highBytes, highBytes, encode, encode, List.filter_map, List.filter_map, foreign,
    List.filter_filter]
  congr 1
  apply List.filter_congr
  intro letter _
  cases own : isOwn letter with
  | false => simp
  | true =>
      have small := toNat_lt_of_isOwn own
      have low : ¬0x80 ≤ encodeLetter letter := by
        rw [UInt8.le_iff_toNat_le, toNat_encodeLetter (by omega)]
        exact Nat.not_le.2 small
      simp [low]

theorem highBytes_congr {first second : Text} (same : foreign first = foreign second) :
    highBytes first = highBytes second := by
  rw [← highBytes_foreign, same, highBytes_foreign]

end Text.Latin

/-- Bytes can be written for what the settings put into the output. -/
structure Settings.IsLatin (settings : Settings) : Prop where
  symbolPrefix : Encodable settings.symbolPrefix
  headers : ∀ entry ∈ settings.sections, Encodable entry.2

/-- Bytes can be written for what a line adds to the output. -/
structure Reading.IsLatin (symbolPrefix : Text) (reading : Reading) : Prop where
  output : ∀ output ∈ reading.output, Encodable (output.render symbolPrefix)
  label : ∀ name, reading.label = some name → Encodable name

/-- Bytes can be written for what a session has collected. -/
structure Session.IsLatin (symbolPrefix : Text) (session : Session) : Prop where
  pending : ∀ output ∈ session.pending, Encodable (output.render symbolPrefix)
  defined : ∀ name ∈ session.defined.toList, Encodable name

namespace Environment

variable {environment : Environment} (latin : environment.settings.IsLatin)
include latin

theorem isLatin_readOutside (line : Text) :
    (environment.readOutside line).IsLatin environment.settings.symbolPrefix where
  label name named := by
    rw [readOutside_label] at named
    contradiction
  output printed member := by
    cases opens : environment.settings.opens line with
    | false =>
        rw [Reading.output, environment.readOutside_of_rests opens] at member
        contradiction
    | true =>
        rcases environment.readOutside_of_opens opens with ⟨header, set, read⟩ | ⟨_, cause, failed⟩
        · rw [Reading.output, read] at member
          obtain rfl := List.mem_singleton.1 member
          obtain ⟨name, _, found⟩ := Option.bind_eq_some_iff.1 set
          obtain ⟨entry, listed, rfl⟩ := Option.map_eq_some_iff.1 found
          have header := latin.headers entry (List.mem_of_find?_eq_some listed)
          have boundary : Encodable (Text.decimal environment.settings.alignment.toNat) :=
            Text.Latin.encodable_of_own (Text.foreign_decimal _)
          rw [Output.render]
          simp only [Text.Latin.encodable_append]
          exact ⟨⟨⟨⟨by decide, header⟩, by decide⟩, boundary⟩, by decide⟩
        · rw [Reading.output, failed] at member
          contradiction

theorem isLatin_readInside {line : Text} (encodable : Encodable line) :
    (environment.readInside line).IsLatin environment.settings.symbolPrefix where
  label name named := by
    have declared : entryLabel (Entry.ofWords (keptWords line)) = some name := named
    cases entry : Entry.ofWords (keptWords line) with
    | declaration declaration =>
        rw [entry, entryLabel] at declared
        have listed : name ∈ keptWords line :=
          Entry.subset_of_declaration entry (by simp [declared])
        have taken := sublist_of_mem_keptWords listed
        exact fun letter inside => encodable letter (taken.subset inside)
    | closing | ignored | align | unknownLine | unknownDeclaration =>
        rw [entry] at declared
        contradiction
  output printed member := by
    obtain ⟨data, rfl⟩ : ∃ data, printed = .data data := by
      rcases environment.output_readInside line with
        none | ⟨value, aligned⟩ | ⟨_, data, _, _, converted⟩
      · rw [none] at member
        contradiction
      · rw [aligned] at member
        exact ⟨_, List.mem_singleton.1 member⟩
      · rw [converted] at member
        exact ⟨data, List.mem_singleton.1 member⟩
    rw [Output.render, Text.Latin.encodable_append]
    refine ⟨fun letter inside => ?_, by decide⟩
    rcases mem_of_mem_render member inside with own | symbol | listed
    · have small := Text.Latin.toNat_lt_of_isOwn own
      omega
    · exact latin.symbolPrefix letter symbol
    · exact encodable letter listed

/-- A reading is Latin wherever its line stands. -/
theorem isLatin_readings (position : Position) {lines : List Text}
    (encodable : ∀ line ∈ lines, Encodable line) :
    ∀ reading ∈ environment.readings position lines,
      reading.IsLatin environment.settings.symbolPrefix := by
  induction lines generalizing position with
  | nil =>
      intro reading member
      contradiction
  | cons line rest inductionHypothesis =>
      have first :
          (environment.readLine position line).IsLatin environment.settings.symbolPrefix := by
        cases position with
        | outside => exact isLatin_readOutside latin line
        | inside => exact isLatin_readInside latin (encodable line (List.mem_cons_self ..))
      have later (next : Position) := inductionHypothesis next fun other member =>
        encodable other (List.mem_cons_of_mem _ member)
      rw [readings]
      cases (environment.readLine position line).result with
      | error cause => simpa using first
      | ok found => exact List.forall_mem_cons.2 ⟨first, later found.1⟩

end Environment

/-- The call does not convert anything but decoded bytes. -/
inductive Call.Decoded : Call → Prop where
  | convert (bytes : List UInt8) : Decoded (.convert (decode bytes))
  | refer (name : Text) : Decoded (.refer name)

namespace Session

variable {environment : Environment}

theorem IsLatin.start (symbolPrefix file : Text) : (start file).IsLatin symbolPrefix where
  pending _ member := by contradiction
  defined _ member := by contradiction

theorem IsLatin.absorb {symbolPrefix : Text} {session : Session}
    (collected : session.IsLatin symbolPrefix) {readings : List Reading}
    (each : ∀ reading ∈ readings, reading.IsLatin symbolPrefix) :
    (session.absorb readings).IsLatin symbolPrefix where
  pending printed member := by
    rcases List.mem_append.1 member with member | member
    · exact collected.pending printed member
    · obtain ⟨reading, listed, inside⟩ := List.mem_flatMap.1 member
      exact (each reading listed).output printed inside
  defined name member := by
    rcases Names.mem_insertAll.1 member with member | member
    · exact collected.defined name member
    · obtain ⟨reading, listed, named⟩ := List.mem_filterMap.1 member
      exact (each reading listed).label name named

/-- A program is Latin when what it is made of is. -/
theorem IsLatin.encodable_program {symbolPrefix : Text} {session : Session}
    (collected : session.IsLatin symbolPrefix) (start : Encodable symbolPrefix) :
    Encodable (program symbolPrefix session.pending session.defined) := by
  rw [program, globalLines]
  simp only [Text.Latin.encodable_append]
  refine ⟨⟨fun letter member => ?_, by decide⟩, fun letter member => ?_⟩
  · obtain ⟨printed, listed, inside⟩ := List.mem_flatMap.1 member
    exact collected.pending printed listed letter inside
  · obtain ⟨name, listed, inside⟩ := List.mem_flatMap.1 member
    have declared : Encodable (".global ".toList ++ symbolPrefix ++ name ++ ['\n']) := by
      simp only [Text.Latin.encodable_append]
      exact ⟨⟨⟨by decide, start⟩, collected.defined name listed⟩, by decide⟩
    exact declared letter inside

section Settings

variable (latin : environment.settings.IsLatin) {session : Session}
  (collected : session.IsLatin environment.settings.symbolPrefix)
include latin collected

/-- A session stays Latin over the lines of a decoded listing. -/
theorem isLatin_reading (bytes : List UInt8) :
    (session.reading environment (decode bytes)).IsLatin environment.settings.symbolPrefix := by
  apply collected.absorb
  apply Environment.isLatin_readings latin
  intro line listed letter inside
  exact Text.Latin.encodable_decode bytes letter ((Text.sublist_of_mem_lines listed).subset inside)

theorem isLatin_answer {call : Call} (decoded : call.Decoded) :
    (session.answer environment call).2.IsLatin environment.settings.symbolPrefix := by
  cases decoded with
  | convert bytes =>
      have read := isLatin_reading latin collected bytes
      rw [answer, convert_eq]
      split
      · exact read
      · exact ⟨fun _ member => by contradiction, read.defined⟩
  | refer name =>
      obtain ⟨messages, after⟩ := session.answer_refer environment name
      rw [after]
      exact ⟨collected.pending, collected.defined⟩

/-- A session stays Latin over any calls. -/
theorem isLatin_run {calls : List Call} (decoded : ∀ call ∈ calls, call.Decoded) :
    (session.run environment calls).2.IsLatin environment.settings.symbolPrefix := by
  induction calls generalizing session with
  | nil => exact collected
  | cons call calls inductionHypothesis =>
      have first := isLatin_answer latin collected (decoded call (List.mem_cons_self ..))
      exact inductionHypothesis first fun other member =>
        decoded other (List.mem_cons_of_mem _ member)

theorem encodable_of_convert {bytes : List UInt8} {text : Text}
    (converted : (session.convert environment (decode bytes)).1 = .ok text) : Encodable text := by
  have read := isLatin_reading latin collected bytes
  rw [convert_eq] at converted
  split at converted
  · contradiction
  · rw [← Except.ok.inj converted]
    exact read.encodable_program latin.symbolPrefix

end Settings

/-- A declaration of a listing that converts leaves the bytes of its texts to its line. -/
theorem exists_form_of_convert {session : Session} {source text : Text}
    (converted : (session.convert environment source).1 = .ok text) {segment : Segment}
    (member : segment ∈ segments environment.settings
      (locations session.file session.line (Text.lines source))) {line : Location}
    (stated : line ∈ segment.statements) {declaration : Declaration}
    (entry : Entry.ofWords (keptWords line.raw) = .declaration declaration) :
    ∃ form, ∃ data : Line, Form.ofOperands declaration.width declaration.operands = .ok form ∧
      environment.translation line = data.render environment.settings.symbolPrefix ++ ['\n'] ∧
      data.label = declaration.label ∧ data.comments = environment.noted form ∧
      highBytes (environment.translation line) =
        highBytes (environment.carried declaration.label form) := by
  have passes := passes_statement (passes_of_convert converted) member stated
  obtain ⟨data, made, translated⟩ := Environment.exists_line_of_passes entry passes
  obtain ⟨form, found, comments, same⟩ := Environment.declarationLine_carries made
  refine ⟨form, data, found, translated, environment.label_of_declarationLine made, comments, ?_⟩
  rw [translated, Text.Latin.highBytes_append, Text.Latin.highBytes_congr same]
  exact List.append_nil _

/-- Whatever a session has converted before, a listing of bytes that converts gives a text of bytes,
and each line has the bytes of its declaration that are not ASCII, in order. -/
theorem convert_transparent {environment : Environment} (latin : environment.settings.IsLatin)
    (file : Text) {calls : List Call} (decoded : ∀ call ∈ calls, call.Decoded)
    (bytes : List UInt8) {text : Text}
    (converted : (((start file).run environment calls).2.convert environment (decode bytes)).1 =
      .ok text) :
    let session := ((start file).run environment calls).2
    let symbolPrefix := environment.settings.symbolPrefix
    let parts := segments environment.settings
      (locations session.file session.line (Text.lines (decode bytes)))
    let defined := (session.convert environment (decode bytes)).2.defined
    (∀ letter ∈ text, letter.toNat ≤ 0xff) ∧
      (encode text).map UInt8.toNat = text.map Char.toNat ∧
      decode (encode text) = text ∧
      text = session.pending.flatMap (Output.render symbolPrefix) ++
        environment.settings.listingText environment.translation parts defined ∧
      ∀ segment ∈ parts, ∀ line ∈ segment.statements,
        (∀ word ∈ keptWords line.raw, (encode word).Sublist bytes) ∧
        ∀ declaration, Entry.ofWords (keptWords line.raw) = .declaration declaration →
          ∃ form, ∃ data : Line,
            Form.ofOperands declaration.width declaration.operands = .ok form ∧
            environment.translation line = data.render symbolPrefix ++ ['\n'] ∧
            data.label = declaration.label ∧ data.comments = environment.noted form ∧
            highBytes (environment.translation line) =
              highBytes (environment.carried declaration.label form) := by
  intro session symbolPrefix parts defined
  have collected : session.IsLatin symbolPrefix :=
    isLatin_run latin (IsLatin.start symbolPrefix file) decoded
  have encodable := encodable_of_convert latin collected converted
  have printed := (convert_of_passes (passes_of_convert converted)).2
  refine ⟨fun letter member => Nat.le_of_lt_succ (encodable letter member), encodable.toNat_encode,
    encodable.decode_encode, Except.ok.inj (converted.symm.trans printed), ?_⟩
  intro segment member line stated
  constructor
  · intro word listed
    have raw := raw_of_mem_locations ((mem_segments member).2.2 line stated).1
    -- A word is cut out of the decoded bytes, and encoding gives these bytes back.
    have taken := (sublist_of_mem_keptWords listed).trans (Text.sublist_of_mem_lines raw)
    have kept := taken.map Text.Latin.encodeLetter
    rwa [← encode, ← encode, Text.Latin.encode_decode] at kept
  · intro declaration entry
    exact exists_form_of_convert converted member stated entry

/-- Labels, references, literals and strings have other letters than ASCII, also in a listing that
failed before. -/
theorem convert_transparent_accents :
    let settings : Settings := { Settings.standard with symbolPrefix := ['\u00e9'] }
    let environment : Environment := ⟨settings, .empty, ∅⟩
    let earlier := encode "_data segment\nx db '\u00ff',0\n\u00fe\n".toList
    let calls := [Call.convert (decode earlier), .refer ['x']]
    let bytes := encode
      "_data segment\nz\u00e4hl dd s\u00fc\u00df, loc_\u00f1\ndd 'ab\u00e7d'\n_data ends\n".toList
    let session := ((start []).run environment calls).2
    let text := ("\n.data\n.align 4\n\u00e9x:\t\t  .asciz \"\u00ff\"\n" ++
      "\n.data\n.align 4\n\u00e9z\u00e4hl:\t\t  .long \u00e9s\u00fc\u00df, 0\t\t# loc_\u00f1\n" ++
      "\t\t  .long 0x6162e764\t\t# 'ab\u00e7d'\n" ++
      "\n.global \u00e9x\n.global \u00e9z\u00e4hl\n").toList
    settings.IsLatin ∧ (∀ call ∈ calls, call.Decoded) ∧
      (session.convert environment (decode bytes)).1 = .ok text ∧
      (∀ letter ∈ text, letter.toNat ≤ 0xff) ∧ decode (encode text) = text := by
  intro settings environment earlier calls bytes session text
  have latin : settings.IsLatin := ⟨by decide, by decide⟩
  have decoded : ∀ call ∈ calls, call.Decoded := by
    intro call member
    rcases List.mem_cons.1 member with rfl | member
    · exact .convert earlier
    · rw [List.mem_singleton.1 member]
      exact .refer ['x']
  have converted : (session.convert environment (decode bytes)).1 = .ok text := by
    decide +kernel
  obtain ⟨small, _, same, _⟩ := convert_transparent latin [] decoded bytes converted
  exact ⟨latin, decoded, converted, small, same⟩

end Session

end DataSegment
