import CrashSearch.Model.Classes
import CrashSearch.Model.Execution
import CrashSearch.Model.Flow
import CrashSearch.Proofs.Failures
import CrashSearch.Proofs.Rearranged

/-!
# Values and their documents

Every value of the model is read back from its document, whatever order the members of the
document are put in. A document that spells all members of a trace is still refused if the target
level is not one of the levels.

## Main definitions

* `StackTrace.Spelled`: the members of a document are those of a trace.

## Main statements

* `Instruction.readsBack`: an instruction is read back, with its opcode among its members.
* `StackTrace.ofJson_eq_ok_iff`: which documents are traces.
* `documents_read_back`: all values are read back.
-/

namespace CrashSearch

open Json

/-! ## Traces -/

theorem Frame.readsBack : ReadsBack toJson ofJson := by
  intro f j h
  obtain ⟨fs, hfs, hm⟩ :=
    h.exists_fields ["class_name", "method_name", "line_number"] rfl (by decide)
  have hclass : fs.required "class_name" asText = .ok f.className := hm.required .text (by simp)
  have hmethod : fs.required "method_name" asText = .ok f.methodName :=
    hm.required .text (by simp)
  have hline : fs.required "line_number" asWord32 = .ok f.line := hm.required .word32 (by simp)
  simp only [ofJson, hfs, ok_bind, hclass, hmethod, hline]
  rfl

theorem readsBack_words32 : ReadsBack OrderedSet.words32 asSet32 := by
  intro s j h
  rw [asSet32, ReadsBack.list .word32 s.toList j h]
  exact congrArg Except.ok s.ofList_toList

theorem readsBack_words64 : ReadsBack OrderedSet.words64 asSet64 := by
  intro s j h
  rw [asSet64, ReadsBack.list .word64 s.toList j h]
  exact congrArg Except.ok s.ofList_toList

namespace StackTrace

/-- The members of a document are those of a trace. The levels that are not tracked may be
missing. -/
def Spelled (j : Json) (exceptionType : String) (frames : List Frame) (level : UInt64)
    (irrelevant : OrderedSet UInt64) : Prop :=
  ∃ fs, fields ["exception_type", "frames", "target_frame_level", "irrelevant_frames"] j = .ok fs ∧
    fs.required "exception_type" asText = .ok exceptionType ∧
    fs.required "frames" (asList Frame.ofJson) = .ok frames ∧
    fs.required "target_frame_level" asWord64 = .ok level ∧
    fs.optional "irrelevant_frames" asSet64 .empty = .ok irrelevant

variable {j : Json} {t : StackTrace}

/-- A document is a trace just if it spells one whose target level is one of its levels. -/
theorem ofJson_eq_ok_iff : ofJson j = .ok t ↔ ∃ exceptionType frames level irrelevant made,
    Spelled j exceptionType frames level irrelevant ∧
      make? exceptionType frames level = .ok made ∧ t = made.withIrrelevant irrelevant := by
  constructor
  · intro h
    unfold ofJson at h
    obtain ⟨fs, hfs, h⟩ := exists_of_bind_eq_ok h
    obtain ⟨type, htype, h⟩ := exists_of_bind_eq_ok h
    obtain ⟨frames, hframes, h⟩ := exists_of_bind_eq_ok h
    obtain ⟨level, hlevel, h⟩ := exists_of_bind_eq_ok h
    obtain ⟨irrelevant, hirrelevant, h⟩ := exists_of_bind_eq_ok h
    split at h
    · rename_i made hmade
      exact ⟨type, frames, level, irrelevant, made, ⟨fs, hfs, htype, hframes, hlevel, hirrelevant⟩,
        hmade, (Except.ok.inj h).symm⟩
    · cases h
  · rintro ⟨type, frames, level, irrelevant, made,
      ⟨fs, hfs, htype, hframes, hlevel, hirrelevant⟩, hmade, rfl⟩
    simp only [ofJson, hfs, ok_bind, htype, hframes, hlevel, hirrelevant, hmade]
    rfl

theorem readsBack : ReadsBack toJson ofJson := by
  intro t j h
  obtain ⟨fs, hfs, hm⟩ := h.exists_fields
    ["exception_type", "frames", "target_frame_level", "irrelevant_frames"] rfl (by decide)
  have hmade : make? t.exceptionType t.frames t.targetLevel = .ok (t.withIrrelevant .empty) :=
    make?_eq_ok_iff.2 ⟨⟨t.one_le_targetLevel, t.targetLevel_le⟩, rfl, rfl, rfl, rfl⟩
  have hspelled : Spelled j t.exceptionType t.frames t.targetLevel t.irrelevant :=
    ⟨fs, hfs, hm.required .text (by simp), hm.required (.list Frame.readsBack) (by simp),
      hm.required .word64 (by simp), hm.optional readsBack_words64 (by simp) _⟩
  exact ofJson_eq_ok_iff.2 ⟨_, _, _, _, _, hspelled, hmade, rfl⟩

end StackTrace

theorem Thrown.readsBack : ReadsBack toJson ofJson := by
  intro t j h
  obtain ⟨fs, hfs, hm⟩ := h.exists_fields ["exception_type", "frames"] rfl (by decide)
  have htype : fs.required "exception_type" asText = .ok t.exceptionType :=
    hm.required .text (by simp)
  have hframes : fs.optional "frames" (asList Frame.ofJson) [] = .ok t.frames :=
    hm.optional (.list Frame.readsBack) (by simp) _
  simp only [ofJson, hfs, ok_bind, htype, hframes]
  rfl

theorem CallRecord.readsBack : ReadsBack toJson ofJson := by
  intro c j h
  obtain ⟨fs, hfs, hm⟩ := h.exists_fields
    ["method_id", "caller_id", "call_depth", "class_name", "method_name", "line_trace"] rfl
    (by decide)
  have hid : fs.required "method_id" asWord64 = .ok c.methodId := hm.required .word64 (by simp)
  have hcaller : fs.required "caller_id" asWord64 = .ok c.callerId :=
    hm.required .word64 (by simp)
  have hdepth : fs.required "call_depth" asWord32 = .ok c.callDepth :=
    hm.required .word32 (by simp)
  have hclass : fs.optional "class_name" asText "" = .ok c.className :=
    hm.optional .text (by simp) _
  have hmethod : fs.required "method_name" asText = .ok c.methodName :=
    hm.required .text (by simp)
  have hlines : fs.optional "line_trace" asSet32 .empty = .ok c.lineTrace :=
    hm.optional readsBack_words32 (by simp) _
  simp only [ofJson, hfs, ok_bind, hid, hcaller, hdepth, hclass, hmethod, hlines]
  rfl

/-! ## Control flow -/

theorem InstructionId.readsBack : ReadsBack toJson ofJson := by
  intro i j h
  obtain ⟨fs, hfs, hm⟩ := h.exists_fields ["class_name", "method_name", "index"] rfl (by decide)
  have hclass : fs.required "class_name" asText = .ok i.className := hm.required .text (by simp)
  have hmethod : fs.required "method_name" asText = .ok i.methodName :=
    hm.required .text (by simp)
  have hindex : fs.required "index" asWord32 = .ok i.index := hm.required .word32 (by simp)
  simp only [ofJson, hfs, ok_bind, hclass, hmethod, hindex]
  rfl

theorem CallTarget.readsBack : ReadsBack toJson ofJson := by
  intro t j h
  obtain ⟨fs, hfs, hm⟩ :=
    h.exists_fields ["class_name", "method_name", "arg_types"] rfl (by decide)
  have hclass : fs.required "class_name" asText = .ok t.className := hm.required .text (by simp)
  have hmethod : fs.required "method_name" asText = .ok t.methodName :=
    hm.required .text (by simp)
  have htypes : fs.optional "arg_types" (asList asText) [] = .ok t.argTypes :=
    hm.optional (.list .text) (by simp) _
  simp only [ofJson, hfs, ok_bind, hclass, hmethod, htypes]
  rfl

theorem CallSite.readsBack : ReadsBack toJson ofJson := by
  intro s j h
  obtain ⟨fs, hfs, hm⟩ := h.exists_fields ["instruction", "target"] rfl (by decide)
  have hinstruction : fs.required "instruction" InstructionId.ofJson = .ok s.instruction :=
    hm.required InstructionId.readsBack (by simp)
  have htarget : fs.required "target" CallTarget.ofJson = .ok s.target :=
    hm.required CallTarget.readsBack (by simp)
  simp only [ofJson, hfs, ok_bind, hinstruction, htarget]
  rfl

namespace Opcode

variable {ns : List (String × Json)} {name : String} {b : Json}

theorem only_of_mem (hnodup : (ns.map (·.1)).Nodup) (hn : (name, b) ∈ ns) :
    only name (ns.map spell) = .ok b := by
  have hnamed : named name (ns.map spell) = [b] := by
    have hfilter : (ns.map spell).filter (fun m => Quoted.decode m.1 = some name) =
        (ns.filter (·.1 = name)).map spell := by
      simp [List.filter_map, Function.comp_def]
    rw [named, hfilter, filter_name hnodup hn]
    rfl
  rw [only, hnamed]

theorem readable_members {o : Opcode} : ∀ m ∈ o.members, m.2.readable = true := by
  have htext (s : String) : (text s).readable = true := by
    simp [text, readable, Quoted.decode_encode]
  have htarget (t : CallTarget) : t.toJson.readable = true := by
    simp [CallTarget.toJson, record, readable, readableMembers, readableItems_iff, htext,
      Quoted.decode_encode]
  cases o <;> simp [members, htext, htarget]

theorem kindOfJson_of_rearranged {kind : String} (h : Rearranged (text kind) b) :
    kindOfJson b = .ok kind := by
  rw [h.eq_text]
  exact ReadsBack.text kind _ (.refl _)

/-- The kind of an opcode decides which other members are looked for. -/
theorem ofMembers_eq (hnodup : (ns.map (·.1)).Nodup) {o : Opcode}
    (hm : ∀ m ∈ o.members, ∃ b, (m.1, b) ∈ ns ∧ Rearranged m.2 b) :
    ofMembers (ns.map spell) = .ok o := by
  have hkind (kind : String) (h : ("op", text kind) ∈ o.members) :
      ∃ b, only "op" (ns.map spell) = .ok b ∧ kindOfJson b = .ok kind := by
    obtain ⟨b, hb, hrearranged⟩ := hm _ h
    exact ⟨b, only_of_mem hnodup hb, kindOfJson_of_rearranged hrearranged⟩
  cases o with
  | invoke target =>
    obtain ⟨b, honly, hkind⟩ := hkind "invoke" (by simp [members])
    obtain ⟨c, hc, hrearranged⟩ := hm ("target", target.toJson) (by simp [members])
    have htarget := CallTarget.readsBack target c hrearranged
    simp only [ofMembers, honly, ok_bind, hkind, only_of_mem hnodup hc, htarget]
    rfl
  | _ =>
    obtain ⟨b, honly, hkind⟩ := hkind _ (.head _)
    simp only [ofMembers, honly, ok_bind, hkind]
    rfl

end Opcode

namespace Instruction

theorem notMem_of_mem_members {o : Opcode} : ∀ m ∈ o.members, m.1 ∉ ["index", "line"] := by
  cases o <;> simp [Opcode.members]

theorem nodup_names {i : Instruction} : (([("index", nat i.index.toNat),
    ("line", lineToJson i.line)] ++ i.opcode.members).map (·.1)).Nodup := by
  cases i.opcode <;> simp [Opcode.members]

theorem opcodeMembers_eq {ns : List (String × Json)}
    (hreadable : ∀ n ∈ ns, n.1 ∉ ["index", "line"] → n.2.readable = true) :
    opcodeMembers (ns.map spell) = .ok ((ns.filter (·.1 ∉ ["index", "line"])).map spell) := by
  have hfilter : (ns.map spell).filter (fun m =>
      Quoted.decode m.1 ≠ some "index" ∧ Quoted.decode m.1 ≠ some "line") =
        (ns.filter (·.1 ∉ ["index", "line"])).map spell := by
    simp [List.filter_map, Function.comp_def]
  have hmembers : readableMembers ((ns.filter (·.1 ∉ ["index", "line"])).map spell) = true := by
    rw [readableMembers_iff]
    intro m hm
    obtain ⟨n, hn, rfl⟩ := List.mem_map.1 hm
    obtain ⟨hn, hname⟩ := List.mem_filter.1 hn
    exact ⟨by simp, hreadable n hn (by simpa using hname)⟩
  rw [opcodeMembers, hfilter]
  exact if_pos hmembers

/-- The members of the opcode stand among those of its instruction and are told apart by their
names. -/
theorem readsBack : ReadsBack toJson ofJson := by
  intro i j h
  obtain ⟨ns, rfl, hns⟩ := Rearranged.exists_record h
  have hnodup : (ns.map (·.1)).Nodup := hns.names.nodup_iff.1 nodup_names
  have hreadable : ∀ n ∈ ns, n.1 ∉ ["index", "line"] → n.2.readable = true := by
    intro n hn hname
    obtain ⟨a, ha, hrearranged⟩ := hns.values n hn
    have hmember : (n.1, a) ∈ i.opcode.members :=
      (List.mem_append.1 ha).resolve_left fun hfirst =>
        hname (List.mem_map_of_mem (f := Prod.fst) hfirst)
    exact hrearranged.readable (Opcode.readable_members _ hmember)
  have hfields : fields ["index", "line"] (.object (ns.map spell)) =
      .ok (ns.filter (·.1 ∈ ["index", "line"])) :=
    fields_record hnodup fun n hn hname => whole_of_readable _ (hreadable n hn hname)
  have hholds := hns.holds nodup_names ["index", "line"]
  have hindex : Fields.required (ns.filter (·.1 ∈ ["index", "line"])) "index" asWord32 =
      .ok i.index := hholds.required .word32 (by simp)
  have hoption : ReadsBack lineToJson (asOption asWord32) :=
    ReadsBack.word32.option (fun _ h => nomatch h) rfl fun _ => rfl
  have hline : Fields.optional (ns.filter (·.1 ∈ ["index", "line"])) "line" (asOption asWord32)
      none = .ok i.line := hholds.optional hoption (by simp) _
  have hopcode : Opcode.ofMembers ((ns.filter (·.1 ∉ ["index", "line"])).map spell) =
      .ok i.opcode := by
    refine Opcode.ofMembers_eq ((List.filter_sublist.map _).nodup hnodup) fun m hm => ?_
    obtain ⟨b, hb, hrearranged⟩ := hns.exists_mem nodup_names (List.mem_append_right _ hm)
    have hname : m.1 ∉ ["index", "line"] := notMem_of_mem_members m hm
    exact ⟨b, List.mem_filter.2 ⟨hb, by simpa using hname⟩, hrearranged⟩
  simp only [record_eq, ofJson, hfields, ok_bind, opcodeMembers_eq hreadable, hindex, hline,
    hopcode]
  rfl

end Instruction

/-- No case, the default case as a text, and a value as an object. -/
theorem SwitchCase.readsBack : ReadsBack toJson (asOption ofJson) := by
  intro c j h
  match c with
  | none =>
    cases h
    rfl
  | some .default =>
    obtain rfl := Rearranged.eq_text h
    rfl
  | some (.value n) =>
    obtain ⟨ns, rfl, hns⟩ := Rearranged.exists_record h
    obtain ⟨b, rfl, hb⟩ := hns.exists_singleton
    have hvalue : asInt32 b = .ok n := ReadsBack.int32 n b hb
    have hread : ofJson (record [("value", b)]) = .ok (.value n) := by
      simp [record, ofJson, Quoted.decode_encode, hvalue]
    change some <$> ofJson (record [("value", b)]) = _
    rw [hread]
    rfl

theorem Branch.readsBack : ReadsBack toJson ofJson := by
  intro b j h
  obtain ⟨fs, hfs, hm⟩ := h.exists_fields ["id", "instruction", "switch_case"] rfl (by decide)
  have hid : fs.required "id" asWord32 = .ok b.id := hm.required .word32 (by simp)
  have hinstruction : fs.required "instruction" InstructionId.ofJson = .ok b.instruction :=
    hm.required InstructionId.readsBack (by simp)
  have hcase : fs.optional "switch_case" (asOption SwitchCase.ofJson) none = .ok b.switchCase :=
    hm.optional SwitchCase.readsBack (by simp) _
  simp only [ofJson, hfs, ok_bind, hid, hinstruction, hcase]
  rfl

theorem ControlDependency.readsBack : ReadsBack toJson ofJson := by
  intro d j h
  obtain ⟨fs, hfs, hm⟩ := h.exists_fields ["branch", "expression_value"] rfl (by decide)
  have hbranch : fs.required "branch" Branch.ofJson = .ok d.branch :=
    hm.required Branch.readsBack (by simp)
  have hvalue : fs.required "expression_value" asBool = .ok d.expressionValue :=
    hm.required .bool (by simp)
  simp only [ofJson, hfs, ok_bind, hbranch, hvalue]
  rfl

/-! ## Classes -/

theorem ClassInfo.readsBack : ReadsBack toJson ofJson := by
  intro c j h
  obtain ⟨fs, hfs, hm⟩ := h.exists_fields
    ["name", "superclass", "interfaces", "is_interface", "methods", "calls"] rfl (by decide)
  have hname : fs.optional "name" asText "" = .ok c.name := hm.optional .text (by simp) _
  have hoption : ReadsBack optionToJson (asOption asText) :=
    ReadsBack.text.option (by simp [asText]) rfl fun _ => rfl
  have hsuper : fs.optional "superclass" (asOption asText) none = .ok c.superclass :=
    hm.optional hoption (by simp) _
  have hinterfaces : fs.optional "interfaces" (asList asText) [] = .ok c.interfaces :=
    hm.optional (.list .text) (by simp) _
  have hinterface : fs.optional "is_interface" asBool false = .ok c.isInterface :=
    hm.optional .bool (by simp) _
  have hmethods : fs.optional "methods" (asList asText) [] = .ok c.methods :=
    hm.optional (.list .text) (by simp) _
  have hcalls : fs.optional "calls" (asList (asPair asText)) [] = .ok c.calls :=
    hm.optional (.list (.pair .text)) (by simp) _
  simp only [ofJson, hfs, ok_bind, hname, hsuper, hinterfaces, hinterface, hmethods, hcalls]
  rfl

theorem CallNode.readsBack : ReadsBack toJson ofJson := by
  intro n j h
  obtain ⟨fs, hfs, hm⟩ := h.exists_fields ["method", "callees"] rfl (by decide)
  have hmethod : fs.required "method" asText = .ok n.method := hm.required .text (by simp)
  have hcallees : fs.required "callees" (asList asText) = .ok n.callees :=
    hm.required (.list .text) (by simp)
  simp only [ofJson, hfs, ok_bind, hmethod, hcallees]
  rfl

theorem CallGraph.readsBack : ReadsBack toJson ofJson := by
  intro g j h
  obtain ⟨fs, hfs, hm⟩ := h.exists_fields ["class_name", "nodes"] rfl (by decide)
  have hclass : fs.required "class_name" asText = .ok g.className := hm.required .text (by simp)
  have hnodes : fs.required "nodes" (asList CallNode.ofJson) = .ok g.nodes :=
    hm.required (.list CallNode.readsBack) (by simp)
  simp only [ofJson, hfs, ok_bind, hclass, hnodes]
  rfl

/-! ## All values -/

/-- Every value is read back from its document, also with the members of the document and of the
objects inside of it in another order. A document is read as a trace just if it spells all members
of one and the target level is one of its levels, and then the trace is the one made of these
members. -/
theorem documents_read_back :
    ReadsBack Frame.toJson Frame.ofJson ∧
    ReadsBack StackTrace.toJson StackTrace.ofJson ∧
    ReadsBack InstructionId.toJson InstructionId.ofJson ∧
    ReadsBack CallTarget.toJson CallTarget.ofJson ∧
    ReadsBack CallSite.toJson CallSite.ofJson ∧
    ReadsBack Instruction.toJson Instruction.ofJson ∧
    ReadsBack Branch.toJson Branch.ofJson ∧
    ReadsBack ControlDependency.toJson ControlDependency.ofJson ∧
    ReadsBack ClassInfo.toJson ClassInfo.ofJson ∧
    ReadsBack CallGraph.toJson CallGraph.ofJson ∧
    ReadsBack CallRecord.toJson CallRecord.ofJson ∧
    ReadsBack Thrown.toJson Thrown.ofJson ∧
    ∀ j t, StackTrace.ofJson j = .ok t ↔ ∃ exceptionType frames level irrelevant made,
      StackTrace.Spelled j exceptionType frames level irrelevant ∧
        1 ≤ level.toNat ∧ level.toNat ≤ frames.length ∧
        StackTrace.make? exceptionType frames level = .ok made ∧
        t = made.withIrrelevant irrelevant := by
  refine ⟨Frame.readsBack, StackTrace.readsBack, InstructionId.readsBack, CallTarget.readsBack,
    CallSite.readsBack, Instruction.readsBack, Branch.readsBack, ControlDependency.readsBack,
    ClassInfo.readsBack, CallGraph.readsBack, CallRecord.readsBack, Thrown.readsBack, ?_⟩
  intro j t
  rw [StackTrace.ofJson_eq_ok_iff]
  constructor
  · rintro ⟨type, frames, level, irrelevant, made, hspelled, hmade, ht⟩
    obtain ⟨hone, hle⟩ := (StackTrace.make?_eq_ok_iff.1 hmade).1
    exact ⟨type, frames, level, irrelevant, made, hspelled, hone, hle, hmade, ht⟩
  · rintro ⟨type, frames, level, irrelevant, made, hspelled, -, -, hmade, ht⟩
    exact ⟨type, frames, level, irrelevant, made, hspelled, hmade, ht⟩

/-- An instruction is read back although its members and those of the called method inside of it
are listed backwards. -/
theorem backwards_read_back :
    Instruction.ofJson (record [
      ("target", record [("arg_types", .array [text "int"]), ("method_name", text "run"),
        ("class_name", text "Outer")]),
      ("op", text "invoke"), ("line", .null), ("index", nat 3)]) =
        .ok ⟨3, none, .invoke ⟨"Outer", "run", ["int"]⟩⟩ := by
  obtain ⟨-, -, -, -, -, hinstruction, -⟩ := documents_read_back
  refine hinstruction _ _ (.object (List.reverse_perm _).symm rfl ?_)
  refine .cons ?_ (List.forall₂_same.2 fun _ _ => .refl _)
  exact .object (List.reverse_perm _).symm rfl (List.forall₂_same.2 fun _ _ => .refl _)

end CrashSearch
