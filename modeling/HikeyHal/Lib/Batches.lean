import Mathlib.Data.List.Basic

/-!
# Batches

Items are collected in a batch until the batch is closed. `All P` says that the
batch that is open and all the closed ones satisfy `P`; it is enough to look at
what is added.
-/

namespace HikeyHal.Lib

structure Batches (α : Type*) where
  pending : List α
  closed : List (List α)

namespace Batches

variable {α : Type*}

def empty : Batches α := ⟨[], []⟩

def close (b : Batches α) : Batches α := ⟨[], b.closed ++ [b.pending]⟩

def add (b : Batches α) (x : α) : Batches α := ⟨b.pending ++ [x], b.closed⟩

def All (P : List α → Prop) (b : Batches α) : Prop := P b.pending ∧ ∀ c ∈ b.closed, P c

/-- `b'` has closed batches that `b` has not. -/
def ClosedSince (b b' : Batches α) : Prop := b.closed.length < b'.closed.length

instance (b b' : Batches α) : Decidable (b.ClosedSince b') :=
  inferInstanceAs (Decidable (b.closed.length < b'.closed.length))

theorem closedSince_close (b : Batches α) : b.ClosedSince b.close := by
  simp [ClosedSince, close]

theorem not_closedSince_self (b : Batches α) : ¬ b.ClosedSince b := Nat.lt_irrefl _

variable {P Q : List α → Prop} {b : Batches α}

theorem All.empty (h : P []) : (Batches.empty : Batches α).All P := by
  refine ⟨h, ?_⟩
  intro c hc
  cases hc

theorem All.close (hnil : P []) (h : b.All P) : b.close.All P := by
  refine ⟨hnil, ?_⟩
  intro c hc
  rcases List.mem_append.mp hc with hc | hc
  · exact h.2 c hc
  · rw [List.mem_singleton.mp hc]
    exact h.1

theorem All.add {x : α} (hadd : P (b.pending ++ [x])) (h : b.All P) : (b.add x).All P :=
  ⟨hadd, h.2⟩

theorem All.mono (hPQ : ∀ c, P c → Q c) (h : b.All P) : b.All Q :=
  ⟨hPQ _ h.1, fun c hc => hPQ c (h.2 c hc)⟩

end Batches

end HikeyHal.Lib
