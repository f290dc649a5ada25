import Mathlib.Tactic.IntervalCases
import Avatar.Lib.SsaTyping
import Avatar.Translator.Cache

/-! The translators emit typed code. Each register that has a value has one of its type, the result of each
    instruction has its type, and no translator ends early on operands that are laid out as `WellFormed` says.

    The rules below are read from the end of a translator to its start: each one takes what follows the
    step as its last argument. -/

namespace Avatar.Translator
open EmitM

def registerType (id : Register) : Option Ssa.Ty := valueInformation.lookup id

abbrev Value.Typed (results : List (Option Ssa.Ty)) (val : Value) (ty : Ssa.Ty) : Prop :=
  Ssa.Value.HasType registerType results val ty

/-- A unit whose code has the results `results`. `CPSR` keeps the value that it has at the start of the block. -/
structure Emission.Typed (results : List (Option Ssa.Ty)) (e : Emission) : Prop where
  code : Ssa.CodeHasType registerType e.code results
  keys : e.values.map (·.1) = valueInformation.map (·.1)
  values : ∀ id ty, registerType id = some ty → ∃ val, e.values.lookup id = some val ∧ Value.Typed results val ty
  cpsr : e.values.lookup .cpsr = some (.phi .cpsr)

/-- From every such unit `m` leads to a typed unit, and its result has the property `Q`. -/
def EmitM.Succeeds {α : Type} (m : EmitM α) (results : List (Option Ssa.Ty)) (Q : α → Prop) : Prop :=
  ∀ e : Emission, e.Typed results → ∃ a e' results', m e = some (a, e') ∧ e'.Typed results' ∧ Q a

def Successor.Valid : Successor → Prop
  | branch _ condition => 0 ≤ condition ∧ condition < 14
  | fallThrough | jump _ => True

theorem lookup_isSome_iff {β : Type} {l : List (Register × β)} {id : Register} :
    (l.lookup id).isSome = true ↔ id ∈ l.map (·.1) := by
  rw [List.lookup_isSome_iff, List.mem_map]
  exact ⟨fun ⟨v, hv, heq⟩ => ⟨v, hv, (beq_iff_eq.mp heq).symm⟩, fun ⟨v, hv, heq⟩ => ⟨v, hv, beq_iff_eq.mpr heq.symm⟩⟩

theorem mem_of_registerType {id : Register} {ty : Ssa.Ty} (h : registerType id = some ty) :
    id ∈ valueInformation.map (·.1) := lookup_isSome_iff.mp (Option.isSome_of_eq_some h)

theorem registerType_of_isLow {id : Register} (h : id.isLow = true) : registerType id = some .i32 ∧ id ≠ .cpsr := by
  cases id <;> cases h <;> exact ⟨rfl, nofun⟩

theorem Emission.typed_initial : Emission.Typed [] ⟨[], initialValues⟩ where
  code := .nil
  keys := by rw [initialValues, List.map_map]; rfl
  values id ty h := ⟨.phi id, lookup_initialValues id (mem_of_registerType h), .phi h⟩
  cpsr := rfl

namespace EmitM.Succeeds
variable {α β : Type} {results : List (Option Ssa.Ty)} {Q : α → Prop} {R : β → Prop} {inst : MCInst} {i : Nat}
  {operands : List Operand}

theorem pure {a : α} (h : Q a) : Succeeds (pure a) results Q := fun e he => ⟨a, e, results, rfl, he, h⟩

theorem skip {m : EmitM α} {f : α → EmitM β} {a : α} (hm : ∀ e, m e = some (a, e))
    (h : Succeeds (f a) results R) : Succeeds (m >>= f) results R := fun e he => by
  obtain ⟨b, e', results', hf, he', hb⟩ := h e he
  exact ⟨b, e', results', by rw [bind_apply, hm, Option.bind_some, hf], he', hb⟩

theorem getReg {f : Register → EmitM β} {r : Register} (ho : inst.operands = operands)
    (hr : operands[i]? = some (.reg r)) (h : Succeeds (f r) results R) :
    Succeeds (getReg inst i >>= f) results R := skip (fun _ => getReg_apply (ho ▸ hr)) h

theorem getImm {f : Int → EmitM β} {value : Int} (ho : inst.operands = operands)
    (hi : operands[i]? = some (.imm value)) (h : Succeeds (f value) results R) :
    Succeeds (getImm inst i >>= f) results R := skip (fun _ => getImm_apply (ho ▸ hi)) h

theorem assertOperand {f : Unit → EmitM β} {operand : Operand} (ho : inst.operands = operands)
    (hi : operands[i]? = some operand) (h : Succeeds (f ()) results R) :
    Succeeds (assertOperand inst i operand >>= f) results R := skip (fun _ => assertOperand_apply (ho ▸ hi)) h

theorem assertAlways {f : Unit → EmitM β} (ho : inst.operands = operands)
    (hi : operands[i]? = some (.imm condAL)) (hi' : operands[i + 1]? = some (.reg .noRegister))
    (h : Succeeds (f ()) results R) : Succeeds (assertAlways inst i >>= f) results R :=
  skip (fun _ => assertAlways_apply (ho ▸ hi) (ho ▸ hi')) h

theorem getValue {f : Value → EmitM β} {id : Register} {ty : Ssa.Ty} (hid : registerType id = some ty)
    (h : ∀ val, Value.Typed results val ty → Succeeds (f val) results R) :
    Succeeds (getValue id >>= f) results R := fun e he => by
  obtain ⟨val, hlookup, hval⟩ := he.values id ty hid
  obtain ⟨b, e', results', hf, he', hb⟩ := h val hval e he
  refine ⟨b, e', results', ?_, he', hb⟩
  rw [bind_apply, getValue_apply, hlookup, Option.map_some, Option.bind_some, hf]

theorem setValue {f : Unit → EmitM β} {id : Register} {ty : Ssa.Ty} {val : Value} (hid : registerType id = some ty)
    (hcpsr : id ≠ .cpsr) (hval : Value.Typed results val ty) (h : Succeeds (f ()) results R) :
    Succeeds (setValue id val >>= f) results R := fun e he => by
  have he' : Emission.Typed results { e with values := e.values.set id val } := {
    code := he.code
    keys := (Values.keys_set (he.keys ▸ mem_of_registerType hid)).trans he.keys
    values := fun id' ty' hid' => by
      by_cases heq : id' = id
      · subst heq
        rw [hid] at hid'
        cases hid'
        exact ⟨val, Values.lookup_set_self, hval⟩
      · obtain ⟨val', hlookup, hval'⟩ := he.values id' ty' hid'
        exact ⟨val', by rw [Values.lookup_set_of_ne heq, hlookup], hval'⟩
    cpsr := (Values.lookup_set_of_ne hcpsr.symm).trans he.cpsr }
  obtain ⟨b, e'', results', hf, he'', hb⟩ := h _ he'
  exact ⟨b, e'', results', by rw [bind_apply, setValue_apply, Option.bind_some, hf], he'', hb⟩

theorem insert {f : Value → EmitM β} {instr : Instr} {ty : Option Ssa.Ty}
    (hinstr : instr.HasType registerType results ty)
    (h : Succeeds (f (.result results.length)) (results ++ [ty]) R) :
    Succeeds (insert instr >>= f) results R := fun e he => by
  have he' : Emission.Typed (results ++ [ty]) { e with code := e.code ++ [instr] } := {
    code := he.code.snoc hinstr
    keys := he.keys
    values := fun id' ty' hid' => by
      obtain ⟨val, hlookup, hval⟩ := he.values id' ty' hid'
      exact ⟨val, hlookup, hval.mono (List.prefix_append ..)⟩
    cpsr := he.cpsr }
  obtain ⟨b, e'', results', hf, he'', hb⟩ := h _ he'
  refine ⟨b, e'', results', ?_, he'', hb⟩
  rw [bind_apply, insert_apply, Option.bind_some, ← he.code.length_eq, hf]

end EmitM.Succeeds

/-! ### The parts that translators share -/

section Parts
variable {β : Type} {results : List (Option Ssa.Ty)} {R : β → Prop} {lhs rhs val : Value} {f : Unit → EmitM β}

theorem sign_typed (h : Value.Typed results val .i32) : Value.Typed results (sign val) .i1 :=
  .icmp (.shift .lshr h (by decide)) .int32

theorem bit_typed (h : Value.Typed results val .i32) {n : Int} (hn : 0 ≤ n) (hn' : n < 32) :
    Value.Typed results (bit val n) .i1 := by
  have hshift : (BitVec.ofInt 32 n).toNat < 32 := by
    rw [BitVec.toNat_ofInt]
    omega
  exact .icmp (.arithmetic .and (.shift .lshr h hshift) .int32) .int32

theorem overflowSub_typed (hl : Value.Typed results lhs .i32) (hr : Value.Typed results rhs .i32) :
    Value.Typed results (overflowSub lhs rhs) .i1 :=
  .logical .and (.logical .xor (sign_typed hl) (sign_typed hr))
    (.logical .xor (sign_typed hl) (sign_typed (.arithmetic .sub hl hr)))

theorem succeeds_setZN (hval : Value.Typed results val .i32) (h : (f ()).Succeeds results R) :
    (setZN val >>= f).Succeeds results R := by
  rw [setZN, bind_assoc]
  exact .setValue rfl nofun (.icmp hval .int32) (.setValue rfl nofun (sign_typed hval) h)

theorem succeeds_compare (hl : Value.Typed results lhs .i32) (hr : Value.Typed results rhs .i32)
    (h : (f ()).Succeeds results R) : (compare lhs rhs >>= f).Succeeds results R := by
  simp only [compare, bind_assoc]
  refine .setValue rfl nofun (.icmp hl hr) (.setValue rfl nofun (.icmp hl hr) ?_)
  exact .setValue rfl nofun (sign_typed (.arithmetic .sub hl hr)) (.setValue rfl nofun (overflowSub_typed hl hr) h)

theorem succeeds_add {d : Register} (hd : d.isLow = true) (hl : Value.Typed results lhs .i32)
    (hr : Value.Typed results rhs .i32) (h : (f ()).Succeeds results R) :
    (add d lhs rhs >>= f).Succeeds results R := by
  obtain ⟨hty, hcpsr⟩ := registerType_of_isLow hd
  have hsum : Value.Typed results (.binary .add lhs rhs) .i32 := .arithmetic .add hl hr
  simp only [add, bind_assoc]
  refine .setValue hty hcpsr hsum (succeeds_setZN hsum ?_)
  refine .setValue rfl nofun (.logical .or (.icmp hr hl) (.icmp hsum hl)) (.setValue rfl nofun ?_ h)
  exact .logical .and (.notI1 (.logical .xor (sign_typed hl) (sign_typed hr)))
    (.logical .xor (sign_typed hl) (sign_typed hsum))

end Parts

/-! ### The translators -/

theorem Operand.IsLow.exists_reg {operand : Operand} (h : operand.IsLow) :
    ∃ r : Register, operand = .reg r ∧ r.isLow = true := by
  cases operand with
  | reg r => exact ⟨r, rfl, h⟩
  | imm _ => exact h.elim

theorem Operand.IsImm.exists_imm {operand : Operand} (h : operand.IsImm) : ∃ value : Int, operand = .imm value := by
  cases operand with
  | reg _ => exact h.elim
  | imm value => exact ⟨value, rfl⟩

section Translators
variable {inst : MCInst} {results : List (Option Ssa.Ty)}

/-- The registers are stored one after the other; `LR` is one of them only here. -/
theorem succeeds_pushRegisters {β : Type} {R : β → Prop} {f : Value → EmitM β} {registers : List Register}
    {stackPtr : Value} (hregisters : ∀ r ∈ registers, r.isLow = true ∨ r = .lr)
    (hstack : Value.Typed results stackPtr .i32)
    (h : ∀ results' stackPtr', Value.Typed results' stackPtr' .i32 → (f stackPtr').Succeeds results' R) :
    ((registers.map Operand.reg).foldlM pushRegister stackPtr >>= f).Succeeds results R := by
  induction registers generalizing results stackPtr with
  | nil =>
    rw [List.map_nil, List.foldlM_nil, pure_bind]
    exact h results stackPtr hstack
  | cons r registers ih =>
    have hr : registerType r = some .i32 := by
      rcases hregisters r (List.mem_cons_self ..) with hr | rfl
      · exact (registerType_of_isLow hr).1
      · rfl
    have hnext : Value.Typed results (.gep 4 stackPtr (int32 (-1))) .i32 := .gep hstack .int32
    simp only [List.map_cons, List.foldlM_cons, pushRegister, bind_assoc, pure_bind]
    refine .getValue hr fun val hval => .insert (.store32 hval hnext) ?_
    exact ih (fun r hr => hregisters r (List.mem_cons_of_mem _ hr)) (hnext.mono (List.prefix_append ..))

theorem tPUSH_succeeds (h : WellFormed .tPUSH inst.operands) : (tPUSH inst).Succeeds results Successor.Valid := by
  obtain ⟨registers, hne, hregisters, hoperands⟩ := h
  have hlength : 2 < inst.operands.length := by
    rw [hoperands, List.length_append, List.length_map]
    exact Nat.lt_add_of_pos_right (List.length_pos_iff.mpr hne)
  have hdrop : inst.operands.drop 2 = registers.map .reg := by rw [hoperands]; rfl
  rw [tPUSH, guard, if_pos hlength, pure_bind, hdrop]
  refine .getValue rfl fun sp hsp => succeeds_pushRegisters hregisters (.intToPtr hsp) fun results' ptr hptr => ?_
  exact .setValue rfl nofun (.ptrToInt hptr) (.pure trivial)

theorem tLDRpciASM_succeeds (memory : CodeMemory) (h : WellFormed .tLDRpciASM inst.operands) :
    (tLDRpciASM memory inst).Succeeds results Successor.Valid := by
  obtain ⟨_, _, hoperands, hd, hi⟩ := h
  obtain ⟨d, rfl, hd⟩ := hd.exists_reg
  obtain ⟨value, rfl⟩ := hi.exists_imm
  obtain ⟨hty, hcpsr⟩ := registerType_of_isLow hd
  refine .assertAlways hoperands rfl rfl ?_
  refine .getImm hoperands rfl (.getReg hoperands rfl ?_)
  exact .setValue hty hcpsr .int32 (.pure trivial)

/-- A register that is loaded or stored, the register that holds the base, and an offset. -/
theorem exists_transferred {operands : List Operand}
    (h : ∃ d n i, operands = [d, n, i] ++ Operand.always ∧ d.IsLow ∧ n.IsLow ∧ i.IsImm) :
    ∃ d n imm, operands = [.reg d, .reg n, .imm imm] ++ Operand.always ∧ d.isLow = true ∧ n.isLow = true := by
  obtain ⟨_, _, _, hoperands, hd, hn, hi⟩ := h
  obtain ⟨d, rfl, hd⟩ := hd.exists_reg
  obtain ⟨n, rfl, hn⟩ := hn.exists_reg
  obtain ⟨imm, rfl⟩ := hi.exists_imm
  exact ⟨d, n, imm, hoperands, hd, hn⟩

theorem tLDRHi_succeeds (h : WellFormed .tLDRHi inst.operands) : (tLDRHi inst).Succeeds results Successor.Valid := by
  obtain ⟨d, n, imm, hoperands, hd, hn⟩ := exists_transferred h
  obtain ⟨hty, hcpsr⟩ := registerType_of_isLow hd
  refine .assertAlways hoperands rfl rfl (.getReg hoperands rfl ?_)
  refine .getValue (registerType_of_isLow hn).1 fun rn hrn => .getImm hoperands rfl ?_
  refine .insert (.load16 (.gep (.intToPtr hrn) .int32)) (.getReg hoperands rfl ?_)
  exact .setValue hty hcpsr (.zextI16 (.result List.getElem?_concat_length)) (.pure trivial)

theorem tLDRi_succeeds (h : WellFormed .tLDRi inst.operands) : (tLDRi inst).Succeeds results Successor.Valid := by
  obtain ⟨d, n, imm, hoperands, hd, hn⟩ := exists_transferred h
  obtain ⟨hty, hcpsr⟩ := registerType_of_isLow hd
  refine .assertAlways hoperands rfl rfl (.getReg hoperands rfl ?_)
  refine .getValue (registerType_of_isLow hn).1 fun rn hrn => .getImm hoperands rfl ?_
  refine .insert (.load32 (.gep (.intToPtr hrn) .int32)) (.getReg hoperands rfl ?_)
  exact .setValue hty hcpsr (.result List.getElem?_concat_length) (.pure trivial)

theorem tSTRHi_succeeds (h : WellFormed .tSTRHi inst.operands) : (tSTRHi inst).Succeeds results Successor.Valid := by
  obtain ⟨d, n, imm, hoperands, hd, hn⟩ := exists_transferred h
  refine .assertAlways hoperands rfl rfl (.getReg hoperands rfl ?_)
  refine .getValue (registerType_of_isLow hn).1 fun rn hrn => .getReg hoperands rfl ?_
  refine .getValue (registerType_of_isLow hd).1 fun rd hrd => .getImm hoperands rfl ?_
  exact .insert (.store16 (.trunc hrd) (.gep (.intToPtr hrn) .int32)) (.pure trivial)

theorem tSTRi_succeeds (h : WellFormed .tSTRi inst.operands) : (tSTRi inst).Succeeds results Successor.Valid := by
  obtain ⟨d, n, imm, hoperands, hd, hn⟩ := exists_transferred h
  refine .assertAlways hoperands rfl rfl (.getReg hoperands rfl ?_)
  refine .getValue (registerType_of_isLow hn).1 fun rn hrn => .getReg hoperands rfl ?_
  refine .getValue (registerType_of_isLow hd).1 fun rd hrd => .getImm hoperands rfl ?_
  exact .insert (.store32 hrd (.gep (.intToPtr hrn) .int32)) (.pure trivial)

theorem tCMPr_succeeds (h : WellFormed .tCMPr inst.operands) : (tCMPr inst).Succeeds results Successor.Valid := by
  obtain ⟨_, _, hoperands, hn, hm⟩ := h
  obtain ⟨n, rfl, hn⟩ := hn.exists_reg
  obtain ⟨m, rfl, hm⟩ := hm.exists_reg
  refine .assertAlways hoperands rfl rfl (.getReg hoperands rfl ?_)
  refine .getValue (registerType_of_isLow hn).1 fun lhs hlhs => .getReg hoperands rfl ?_
  exact .getValue (registerType_of_isLow hm).1 fun rhs hrhs => succeeds_compare hlhs hrhs (.pure trivial)

theorem tCMPi8_succeeds (h : WellFormed .tCMPi8 inst.operands) : (tCMPi8 inst).Succeeds results Successor.Valid := by
  obtain ⟨_, _, hoperands, hn, hi⟩ := h
  obtain ⟨n, rfl, hn⟩ := hn.exists_reg
  obtain ⟨value, rfl⟩ := hi.exists_imm
  refine .assertAlways hoperands rfl rfl (.getReg hoperands rfl ?_)
  refine .getValue (registerType_of_isLow hn).1 fun lhs hlhs => .getImm hoperands rfl ?_
  exact succeeds_compare hlhs .int32 (.pure trivial)

theorem tADDi8_succeeds (h : WellFormed .tADDi8 inst.operands) : (tADDi8 inst).Succeeds results Successor.Valid := by
  obtain ⟨_, _, _, hoperands, hd, hn, hi⟩ := h
  obtain ⟨d, rfl, hd⟩ := hd.exists_reg
  obtain ⟨n, rfl, hn⟩ := hn.exists_reg
  obtain ⟨value, rfl⟩ := hi.exists_imm
  refine .assertAlways hoperands rfl rfl (.assertOperand hoperands rfl ?_)
  refine .getReg hoperands rfl (.getValue (registerType_of_isLow hn).1 fun rn hrn => ?_)
  refine .getReg hoperands rfl (.getImm hoperands rfl ?_)
  exact succeeds_add hd hrn .int32 (.pure trivial)

theorem tADDrr_succeeds (h : WellFormed .tADDrr inst.operands) : (tADDrr inst).Succeeds results Successor.Valid := by
  obtain ⟨_, _, _, hoperands, hd, hn, hm⟩ := h
  obtain ⟨d, rfl, hd⟩ := hd.exists_reg
  obtain ⟨n, rfl, hn⟩ := hn.exists_reg
  obtain ⟨m, rfl, hm⟩ := hm.exists_reg
  refine .assertAlways hoperands rfl rfl (.assertOperand hoperands rfl ?_)
  refine .getReg hoperands rfl (.getValue (registerType_of_isLow hn).1 fun rn hrn => ?_)
  refine .getReg hoperands rfl (.getValue (registerType_of_isLow hm).1 fun rm hrm => ?_)
  exact .getReg hoperands rfl (succeeds_add hd hrn hrm (.pure trivial))

theorem tSUBi8_succeeds (h : WellFormed .tSUBi8 inst.operands) : (tSUBi8 inst).Succeeds results Successor.Valid := by
  obtain ⟨_, _, _, hoperands, hd, hn, hi⟩ := h
  obtain ⟨d, rfl, hd⟩ := hd.exists_reg
  obtain ⟨n, rfl, hn⟩ := hn.exists_reg
  obtain ⟨value, rfl⟩ := hi.exists_imm
  obtain ⟨hty, hcpsr⟩ := registerType_of_isLow hd
  refine .assertOperand hoperands rfl (.assertAlways hoperands rfl rfl ?_)
  refine .getReg hoperands rfl (.getValue (registerType_of_isLow hn).1 fun lhs hlhs => ?_)
  refine .getImm hoperands rfl (.getReg hoperands rfl ?_)
  exact .setValue hty hcpsr (.arithmetic .sub hlhs .int32) (succeeds_compare hlhs .int32 (.pure trivial))

theorem tMOVi8_succeeds (h : WellFormed .tMOVi8 inst.operands) : (tMOVi8 inst).Succeeds results Successor.Valid := by
  obtain ⟨_, _, hoperands, hd, hi⟩ := h
  obtain ⟨d, rfl, hd⟩ := hd.exists_reg
  obtain ⟨value, rfl⟩ := hi.exists_imm
  obtain ⟨hty, hcpsr⟩ := registerType_of_isLow hd
  refine .assertAlways hoperands rfl rfl (.assertOperand hoperands rfl ?_)
  refine .getImm hoperands rfl (.getReg hoperands rfl ?_)
  exact .setValue hty hcpsr .int32 (succeeds_setZN .int32 (.pure trivial))

/-- The operands of `logical` are those of `tORR`, `tBIC` and `tAND`. -/
theorem logical_succeeds {op : Value → Value → Value} (h : WellFormed .tORR inst.operands)
    (hop : ∀ rn rm, Value.Typed results rn .i32 → Value.Typed results rm .i32 → Value.Typed results (op rn rm) .i32) :
    (logical inst op).Succeeds results Successor.Valid := by
  obtain ⟨_, _, _, hoperands, hd, hn, hm⟩ := h
  obtain ⟨d, rfl, hd⟩ := hd.exists_reg
  obtain ⟨n, rfl, hn⟩ := hn.exists_reg
  obtain ⟨m, rfl, hm⟩ := hm.exists_reg
  obtain ⟨hty, hcpsr⟩ := registerType_of_isLow hd
  refine .assertAlways hoperands rfl rfl (.assertOperand hoperands rfl ?_)
  refine .getReg hoperands rfl (.getValue (registerType_of_isLow hn).1 fun rn hrn => ?_)
  refine .getReg hoperands rfl (.getValue (registerType_of_isLow hm).1 fun rm hrm => ?_)
  refine .getReg hoperands rfl ?_
  exact .setValue hty hcpsr (hop rn rm hrn hrm) (succeeds_setZN (hop rn rm hrn hrm) (.pure trivial))

theorem shift_typed {op : Ssa.BinaryOp} (hop : op.Shift) {val : Value} (hval : Value.Typed results val .i32) {imm : Int}
    (himm : 0 ≤ imm) (himm' : imm < 32) : Value.Typed results (.binary op val (int32 imm)) .i32 := by
  refine .shift hop hval ?_
  rw [BitVec.toNat_ofInt]
  omega

theorem tLSLri_succeeds (h : WellFormed .tLSLri inst.operands) : (tLSLri inst).Succeeds results Successor.Valid := by
  obtain ⟨_, _, imm, hoperands, hd, hn, himm, himm'⟩ := h
  obtain ⟨d, rfl, hd⟩ := hd.exists_reg
  obtain ⟨n, rfl, hn⟩ := hn.exists_reg
  obtain ⟨hty, hcpsr⟩ := registerType_of_isLow hd
  refine .assertAlways hoperands rfl rfl (.assertOperand hoperands rfl ?_)
  refine .getReg hoperands rfl (.getValue (registerType_of_isLow hn).1 fun rm hrm => ?_)
  refine .getImm hoperands rfl (.getReg hoperands rfl ?_)
  have hrd := shift_typed .shl hrm (Int.le_of_lt himm) himm'
  refine .setValue hty hcpsr hrd (succeeds_setZN hrd ?_)
  exact .setValue rfl nofun (bit_typed hrd (by omega) (by omega)) (.pure trivial)

theorem tLSRri_succeeds (h : WellFormed .tLSRri inst.operands) : (tLSRri inst).Succeeds results Successor.Valid := by
  obtain ⟨_, _, imm, hoperands, hd, hn, himm, himm'⟩ := h
  obtain ⟨d, rfl, hd⟩ := hd.exists_reg
  obtain ⟨n, rfl, hn⟩ := hn.exists_reg
  obtain ⟨hty, hcpsr⟩ := registerType_of_isLow hd
  refine .assertAlways hoperands rfl rfl (.assertOperand hoperands rfl ?_)
  refine .getReg hoperands rfl (.getValue (registerType_of_isLow hn).1 fun rm hrm => ?_)
  refine .getImm hoperands rfl ?_
  by_cases hzero : imm = 0
  · simp only [if_pos hzero]
    refine .getReg hoperands rfl (.setValue hty hcpsr .int32 (succeeds_setZN .int32 ?_))
    exact .setValue rfl nofun (sign_typed hrm) (.pure trivial)
  · simp only [if_neg hzero]
    have hrd := shift_typed .lshr hrm himm himm'
    refine .getReg hoperands rfl (.setValue hty hcpsr hrd (succeeds_setZN hrd ?_))
    exact .setValue rfl nofun (bit_typed hrd (by omega) (by omega)) (.pure trivial)

theorem tB_succeeds (h : WellFormed .tB inst.operands) : (tB inst).Succeeds results Successor.Valid := by
  obtain ⟨_, hoperands, hi⟩ := h
  obtain ⟨value, rfl⟩ := hi.exists_imm
  refine .assertAlways hoperands rfl rfl ?_
  exact .getImm hoperands rfl (.pure trivial)

theorem tBcc_succeeds (h : WellFormed .tBcc inst.operands) : (tBcc inst).Succeeds results Successor.Valid := by
  obtain ⟨_, condition, hoperands, hi, hcondition⟩ := h
  obtain ⟨value, rfl⟩ := hi.exists_imm
  refine .assertOperand hoperands rfl (.getImm hoperands rfl ?_)
  exact .getImm hoperands rfl (.pure hcondition)

/-- A translator succeeds on operands that are laid out for its opcode. -/
theorem instructionTranslator_succeeds {memory : CodeMemory} {translator : MCInst → EmitM Successor}
    (h : WellFormed inst.opcode inst.operands)
    (htranslator : instructionTranslator memory inst.opcode = some translator) :
    (translator inst).Succeeds results Successor.Valid := by
  cases hopcode : inst.opcode <;> rw [hopcode] at h htranslator <;> cases htranslator
  case tPUSH => exact tPUSH_succeeds h
  case tLDRpciASM => exact tLDRpciASM_succeeds memory h
  case tLDRHi => exact tLDRHi_succeeds h
  case tCMPr => exact tCMPr_succeeds h
  case tBcc => exact tBcc_succeeds h
  case tADDi8 => exact tADDi8_succeeds h
  case tMOVi8 => exact tMOVi8_succeeds h
  case tSTRHi => exact tSTRHi_succeeds h
  case tLSLri => exact tLSLri_succeeds h
  case tORR => exact logical_succeeds h fun _ _ => .arithmetic .or
  case tBIC => exact logical_succeeds h fun _ _ hn hm => .arithmetic .and hn (.notI32 hm)
  case tB => exact tB_succeeds h
  case tCMPi8 => exact tCMPi8_succeeds h
  case tSTRi => exact tSTRi_succeeds h
  case tADDi3 => exact tADDi8_succeeds h
  case tSUBi8 => exact tSUBi8_succeeds h
  case tLDRi => exact tLDRi_succeeds h
  case tADDrr => exact tADDrr_succeeds h
  case tAND => exact logical_succeeds h fun _ _ => .arithmetic .and
  case tLSRri => exact tLSRri_succeeds h

/-- The condition of a branch is a flag, or made of flags. -/
theorem getCondition_typed {e : Emission} (he : e.Typed results) {condition : Int} (h : 0 ≤ condition)
    (h' : condition < 14) : ∃ val, getCondition e.values (BitVec.ofInt 32 condition) = some (some val) ∧
      Value.Typed results val .i1 := by
  obtain ⟨z, hz, tz⟩ := he.values .flagZ .i1 rfl
  obtain ⟨n, hn, tn⟩ := he.values .flagN .i1 rfl
  obtain ⟨c, hc, tc⟩ := he.values .flagC .i1 rfl
  obtain ⟨v, hv, tv⟩ := he.values .flagV .i1 rfl
  simp only [getCondition, hz, hn, hc, hv, Option.bind_eq_bind, Option.bind_some]
  interval_cases condition
  · exact ⟨_, rfl, tz⟩
  · exact ⟨_, rfl, .notI1 tz⟩
  · exact ⟨_, rfl, tc⟩
  · exact ⟨_, rfl, .notI1 tc⟩
  · exact ⟨_, rfl, tn⟩
  · exact ⟨_, rfl, .notI1 tn⟩
  · exact ⟨_, rfl, tv⟩
  · exact ⟨_, rfl, .notI1 tv⟩
  · exact ⟨_, rfl, .logical .and (.notI1 tz) tc⟩
  · exact ⟨_, rfl, .logical .or (.notI1 tc) tz⟩
  · exact ⟨_, rfl, .icmpEq tn tv⟩
  · exact ⟨_, rfl, .icmpNe tn tv⟩
  · exact ⟨_, rfl, .logical .and (.icmpEq tn tv) (.notI1 tz)⟩
  · exact ⟨_, rfl, .logical .or (.icmpNe tn tv) tz⟩

end Translators

end Avatar.Translator
