import Avatar.Translator.Effects

/-! Where a translated `PUSH` stores the registers. The architecture stores the first register of the list at the
    lowest address. The code goes through the list from its start and lowers the address each time, so the first
    register ends at the highest one. -/

namespace Avatar.Translator
open Ssa.Machine (Within)

/-- The registers that a list of registers can name, in ascending order. -/
def coreRegisters : List Register :=
  [.r0, .r1, .r2, .r3, .r4, .r5, .r6, .r7, .r8, .r9, .r10, .r11, .r12, .sp, .lr]

/-- The registers and memory after a `PUSH` of `pushed`, as the architecture defines it. -/
structure Pushed (pushed : List Register) (registers registers' : Registers) (m m' : Machine) : Prop where
  sp : registers' .sp = some (.i32 (registers.word .sp - 4 * BitVec.ofNat 32 pushed.length))
  stored : ∀ (i : Nat) (h : i < pushed.length),
    m'.load32 (registers.word .sp - 4 * BitVec.ofNat 32 pushed.length + 4 * BitVec.ofNat 32 i) = registers.word pushed[i]
  memory : ∀ a, ¬Within (registers.word .sp - 4 * BitVec.ofNat 32 pushed.length) (4 * pushed.length) a →
    m'.memory a = m.memory a
  members : m'.members = m.members
  others : registers.KeptExcept [.sp] registers'

section Push
variable {inst : MCInst} {pushed : List Register} {registers registers' : Registers} {m : Machine}

theorem registerType_of_mem_coreRegisters : ∀ r ∈ coreRegisters, registerType r = some .i32 := by decide

theorem length_le_of_sublist (h : pushed.Sublist coreRegisters) : 4 * pushed.length ≤ 2 ^ 32 := by
  have hlength : pushed.length ≤ 15 := h.length_le
  omega

theorem load32_pushed (hlength : 4 * pushed.length ≤ 2 ^ 32) (a : BitVec 32) {i : Nat}
    (hi : i < (pushed.map registers.word).reverse.length) :
    (m.pushWords a (pushed.map registers.word)).load32
      (a - 4 * BitVec.ofNat 32 pushed.length + 4 * BitVec.ofNat 32 i) = (pushed.map registers.word).reverse[i] := by
  have hwords : (pushed.map registers.word).length = pushed.length := List.length_map ..
  have hload := Ssa.Machine.load32_pushWords_reverse (m := m) (a := a) (hwords ▸ hlength) hi
  rwa [hwords] at hload

theorem pushed_iff (hlength : 4 * pushed.length ≤ 2 ^ 32)
    (h : registers'.Agree (registers.set .sp (.i32 (registers.word .sp - 4 * BitVec.ofNat 32 pushed.length)))) :
    Pushed pushed registers registers' m (m.pushWords (registers.word .sp) (pushed.map registers.word)) ↔
      (pushed.map registers.word).reverse = pushed.map registers.word := by
  constructor
  · intro hpushed
    refine List.ext_getElem (by rw [List.length_reverse]) fun i hi hi' => ?_
    have hstored := hpushed.stored i (by rwa [List.length_map] at hi')
    rw [load32_pushed hlength _ hi] at hstored
    rw [hstored, List.getElem_map]
  · intro hreverse
    refine ⟨(h .sp rfl).trans Registers.set_self, fun i hi => ?_, fun a ha => ?_, Ssa.Machine.members_pushWords,
      fun id hid hne => ?_⟩
    · have hi' : i < (pushed.map registers.word).reverse.length := by rwa [List.length_reverse, List.length_map]
      rw [load32_pushed hlength _ hi', List.getElem_of_eq hreverse, List.getElem_map]
    · refine Ssa.Machine.memory_pushWords ?_ ?_ <;> rwa [List.length_map]
    · rw [List.mem_singleton] at hne
      rw [h id hid, Registers.set_of_ne hne]

/-- A translated `PUSH` stores the registers as the architecture defines it if and only if the pushed words are the
    same in the reverse order. -/
theorem push_pushed_iff (hoperands : inst.operands = Operand.always ++ pushed.map .reg) (hne : pushed ≠ [])
    (hascending : pushed.Sublist coreRegisters) (htyped : registers.Typed) (m : Machine) : ∃ registers' m',
      effect tPUSH inst registers m = some (inst.nextPc, registers', m') ∧
        (Pushed pushed registers registers' m m' ↔
          (pushed.map registers.word).reverse = pushed.map registers.word) := by
  obtain ⟨registers', heffect, hagree⟩ := effect_tPUSH hoperands hne
    (fun r hr => registerType_of_mem_coreRegisters r (hascending.subset hr)) htyped m
  exact ⟨registers', _, heffect, pushed_iff (length_le_of_sublist hascending) hagree⟩

/-- `PUSH {r0, lr}` -/
def pushTwo : MCInst := ⟨.tPUSH, Operand.always ++ [Register.r0, .lr].map .reg, 0, 2⟩

theorem push_pushed_iff_pushTwo : ∃ registers' m',
    effect tPUSH pushTwo distinctRegisters zeroMachine = some (pushTwo.nextPc, registers', m') ∧
      (Pushed [.r0, .lr] distinctRegisters registers' zeroMachine m' ↔
        ([Register.r0, .lr].map distinctRegisters.word).reverse = [Register.r0, .lr].map distinctRegisters.word) :=
  push_pushed_iff rfl (by simp) (by decide) distinctRegisters_typed zeroMachine

/-- The first register is not at the new stack pointer. -/
theorem not_push_pushed : ¬∀ (inst : MCInst) (pushed : List Register) (registers : Registers) (m : Machine),
    inst.operands = Operand.always ++ pushed.map .reg → pushed ≠ [] → pushed.Sublist coreRegisters → registers.Typed →
    ∃ registers' m', effect tPUSH inst registers m = some (inst.nextPc, registers', m') ∧
      Pushed pushed registers registers' m m' := by
  intro h
  have htyped : (zeroRegisters.set .r0 (.i32 1)).Typed := zeroRegisters_typed.set rfl (.i32 _)
  obtain ⟨registers', m', heffect, hpushed⟩ := h pushTwo [.r0, .lr] (zeroRegisters.set .r0 (.i32 1)) zeroMachine rfl
    (by simp) (by decide) htyped
  have hfirst := hpushed.stored 0 (by decide)
  cases heffect
  exact absurd hfirst (by decide)

end Push

end Avatar.Translator
