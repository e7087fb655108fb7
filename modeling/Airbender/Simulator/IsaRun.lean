import Airbender.Simulator.IsaRefinement
import Airbender.Simulator.RunCycles

/-!
# Runs of the instruction set

As long as a program comes to no encoding that the simulator only tolerates, its run is that of the
instruction set, and fails where that does.
-/

namespace Airbender.Simulator.Unrolled

open Option (bind_eq_bind bind_some)

variable {M S : Type} [MemorySource M] [NonDeterminismCSRSource M S]

def fetch (machine : Machine M S) : Option Word :=
  MemorySource.getOpcodeNoexcept machine.memory machine.pc.toNat

/-- The cycles of a machine that executes the instruction set. -/
def specRun (config : MachineConfig) : ℕ → Machine M S → Option (Machine M S)
  | 0, machine => some machine
  | numCycles + 1, machine => do
      let instr ← fetch machine
      let next ← specified config instr machine
      specRun config numCycles next

theorem specRun_succ {config : MachineConfig} {machine : Machine M S} {instr : Word}
    (fetched : fetch machine = some instr) (numCycles : ℕ) :
    specRun config (numCycles + 1) machine =
      (specified config instr machine).bind (specRun config numCycles) := by
  simp only [specRun, fetched, bind_eq_bind, bind_some]

theorem runCycles_succ (config : MachineConfig) (numCycles : ℕ) (machine : Machine M S) :
    (runCycles config (numCycles + 1) machine).map (fun result => result.1.machine) =
      ((cycle config machine).map fun result => result.1.machine).bind fun next =>
        (runCycles config numCycles next).map fun result => result.1.machine := by
  rw [runCycles, Option.bind_map]
  cases cycle config machine with
  | none => rfl
  | some result =>
    simp only [bind_eq_bind, bind_some, Function.comp_apply]
    cases runCycles config numCycles result.1.machine <;> rfl

/-- A run is that of the instruction set, or the latter comes to an encoding that is tolerated. -/
theorem runCycles_refines_isa (config : {config // config ∈ machineConfigs}) (numCycles : ℕ)
    (machine : Machine M S) :
    (runCycles config.1 numCycles machine).map (fun result => result.1.machine) =
        specRun config.1 numCycles machine ∨
      ∃ cycles < numCycles, ∃ reached instr, specRun config.1 cycles machine = some reached ∧
        fetch reached = some instr ∧ Tolerated config.1 instr := by
  induction numCycles generalizing machine with
  | zero => exact .inl rfl
  | succ numCycles ih =>
    cases fetched : fetch machine with
    | none =>
      unfold fetch at fetched
      left
      simp [runCycles, cycle, specRun, fetch, fetched]
    | some instr =>
      by_cases tolerated : Tolerated config.1 instr
      · exact .inr ⟨0, numCycles.succ_pos, machine, instr, rfl, fetched, tolerated⟩
      rw [runCycles_succ, cycle_eq_executed fetched, executed_eq_specified config.2 tolerated,
        specRun_succ fetched]
      cases isNext : specified config.1 instr machine with
      | none => exact .inl rfl
      | some next =>
        apply (ih next).imp id
        rintro ⟨cycles, earlier, reached, other, run, atOther, tolerates⟩
        refine ⟨cycles + 1, by omega, reached, other, ?_, atOther, tolerates⟩
        rw [specRun_succ fetched, isNext]
        exact run

end Airbender.Simulator.Unrolled
