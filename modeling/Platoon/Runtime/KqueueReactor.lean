import Platoon.Runtime.Reactor
import Platoon.Sys.Kqueue

/-!
# The reactor on kqueue

On the BSDs each direction has a note of its own, a report deletes only that note, and the
end of a stream is reported to readers and writers alike.  So the kernel may keep notes
that nobody waits for, but never lacks one that somebody does.
-/

namespace Platoon.Runtime

open Platoon.Foundation Platoon.Rust Platoon.Sys

/-- The filter by which kqueue knows a direction. -/
def Direction.filter : Direction → Filter
  | .read => .read
  | .write => .write

namespace KqueueReactor

variable {S : Type → Type} [Slab S] {W : Type}

/-- A reactor and the descriptors of its sources.  Whoever registers a descriptor owns it,
so nobody else does. -/
structure Shared (S : Type → Type) (W : Type) where
  reactor : Reactor Kqueue S W
  owned : List Nat

def new : Shared S W where
  reactor := .new
  owned := []

/-- Nobody registers a descriptor that is owned. -/
def Shared.allows (shared : Shared S W) : Reactor.Op Kqueue W → Bool
  | .insertSource raw => decide (raw ∉ shared.owned)
  | _ => true

/-- The descriptors that are owned after an operation. -/
def Shared.ownedAfter (shared : Shared S W) :
    Reactor.Op Kqueue W → Reactor.Answer Kqueue → List Nat
  | .insertSource raw, .inserted (.ok _) => raw :: shared.owned
  | .removeSource key, _ =>
      match Slab.get? shared.reactor.sources key with
      | some source => shared.owned.erase source.raw
      | none => shared.owned
  | _, _ => shared.owned

def step (shared : Shared S W) (call : Reactor.Call Kqueue W) :
    Outcome Panic (Shared S W) (Reactor.Output Kqueue W) :=
  .when (shared.allows call.op) <|
    (Reactor.step shared.reactor call).andThen fun reactor output =>
      .next { reactor, owned := shared.ownedAfter call.op output.answer } output

/-- One reactor with its clients and the kernel. -/
def system : System Panic (Shared S W) (Reactor.Call Kqueue W) (Reactor.Output Kqueue W) where
  step := KqueueReactor.step

theorem step_eq_next {shared last : Shared S W} {call : Reactor.Call Kqueue W}
    {output : Reactor.Output Kqueue W} :
    system.step shared call = .next last output ↔
      shared.allows call.op = true ∧
        Reactor.system.step shared.reactor call = .next last.reactor output ∧
        last.owned = shared.ownedAfter call.op output.answer := by
  simp only [system, step, Outcome.when_eq_next, Outcome.andThen_eq_next]
  refine and_congr_right fun _ => ⟨?_, ?_⟩
  · rintro ⟨reactor, inner, hstep, heq⟩
    cases heq
    exact ⟨hstep, rfl⟩
  · rintro ⟨hstep, howned⟩
    refine ⟨last.reactor, output, hstep, ?_⟩
    rw [← howned]

end KqueueReactor

end Platoon.Runtime
