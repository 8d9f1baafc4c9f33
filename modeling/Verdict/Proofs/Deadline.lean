import Mathlib.Algebra.GroupWithZero.Nat
import Verdict.Engine

/-!
# What a limit of time does to a run

A limit does not change a run, it cuts it. A trace whose calls take no longer than the limit stays
as it is (`Trace.within_of_le`). Of any other trace the shortest beginning that takes longer is
left: all calls but the last of it have ended in time, and the last one was in progress when the
time was up (`Trace.exists_cut_of_lt`).
-/

namespace Verdict

namespace Call

/-- The time that some calls take one after the other. -/
def totalDelay (calls : List Call) : Nat := (calls.map (·.receipt.delay)).sum

theorem totalDelay_cons (call : Call) (calls : List Call) :
    totalDelay (call :: calls) = call.receipt.delay + totalDelay calls := by
  simp [totalDelay]

/-- `cut` is the shortest beginning of `calls` that takes more than `limit` milliseconds. -/
structure IsCut (limit : Nat) (calls cut : List Call) : Prop where
  initial : cut <+: calls
  late : limit < totalDelay cut
  shortest : ∀ taken, taken <+: calls → limit < totalDelay taken → cut <+: taken

variable {limit : Nat} {call : Call} {calls cut : List Call}

theorem IsCut.unique {cut' : List Call} (h : IsCut limit calls cut) (h' : IsCut limit calls cut') :
    cut = cut' :=
  (h.shortest cut' h'.initial h'.late).eq_of_length_le
    (h'.shortest cut h.initial h.late).length_le

/-- A call that takes more than the limit is the last one to be started. -/
theorem IsCut.head (calls : List Call) (h : limit < call.receipt.delay) :
    IsCut limit (call :: calls) [call] where
  initial := List.cons_prefix_cons.mpr ⟨rfl, List.nil_prefix⟩
  late := by simpa [totalDelay] using h
  shortest taken htaken hlate := by
    obtain rfl | ⟨rest, rfl, -⟩ := List.prefix_cons_iff.mp htaken
    · cases hlate
    · exact List.cons_prefix_cons.mpr ⟨rfl, List.nil_prefix⟩

/-- A call that ends in time leaves the rest of the time to the calls behind it. -/
theorem IsCut.cons (h : call.receipt.delay ≤ limit)
    (hcut : IsCut (limit - call.receipt.delay) calls cut) :
    IsCut limit (call :: calls) (call :: cut) where
  initial := List.cons_prefix_cons.mpr ⟨rfl, hcut.initial⟩
  late := by
    have hlate := hcut.late
    rw [totalDelay_cons]
    omega
  shortest taken htaken hlate := by
    obtain rfl | ⟨rest, rfl, hrest⟩ := List.prefix_cons_iff.mp htaken
    · cases hlate
    · rw [totalDelay_cons] at hlate
      have hshort := hcut.shortest rest hrest (by omega)
      exact List.cons_prefix_cons.mpr ⟨rfl, hshort⟩

theorem within_of_le (h : totalDelay calls ≤ limit) : within limit calls = (calls, false) := by
  induction calls generalizing limit with
  | nil => rfl
  | cons call calls ih =>
    rw [totalDelay_cons] at h
    rw [within, if_neg (by omega), ih (by omega)]

theorem exists_cut_of_lt (h : limit < totalDelay calls) :
    ∃ cut, within limit calls = (cut, true) ∧ IsCut limit calls cut := by
  induction calls generalizing limit with
  | nil => cases h
  | cons call calls ih =>
    rw [totalDelay_cons] at h
    by_cases hfirst : limit < call.receipt.delay
    · exact ⟨[call], by rw [within, if_pos hfirst], .head calls hfirst⟩
    · have hrest : limit - call.receipt.delay < totalDelay calls := by omega
      obtain ⟨cut, hwithin, hcut⟩ := ih hrest
      refine ⟨call :: cut, ?_, .cons (by omega) hcut⟩
      rw [within, if_neg hfirst, hwithin]

end Call

namespace Trace

variable {α : Type} {trace : Trace α} {seconds : Nat}

theorem within_of_le (h : Call.totalDelay trace.calls ≤ seconds * 1000) :
    trace.within seconds = trace := by
  rw [within, Call.within_of_le h]

theorem exists_cut_of_lt (h : seconds * 1000 < Call.totalDelay trace.calls) :
    ∃ cut, Call.IsCut (seconds * 1000) trace.calls cut ∧
      trace.within seconds = ⟨cut, .error (.timeout seconds)⟩ := by
  obtain ⟨cut, hwithin, hcut⟩ := Call.exists_cut_of_lt h
  refine ⟨cut, hcut, ?_⟩
  rw [within, hwithin]

/-- A trace without calls takes no time. -/
theorem within_of_calls_eq_nil (h : trace.calls = []) : trace.within seconds = trace :=
  within_of_le (by simp [h, Call.totalDelay])

end Trace

end Verdict
