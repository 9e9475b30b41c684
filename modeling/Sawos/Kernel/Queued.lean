import Sawos.Kernel.Scheduled
import Sawos.Kernel.Samples

/-! # Sequences of operations on the ready queue

What any sequence of pushes, pops and removals makes of the queue, as long as no thread is pushed that is on it. -/

namespace Sawos
open Exec

section
variable [Hal]

inductive ReadyOp where
  | push (t : Nat)
  | pop
  | remove (p : Nat)

def ReadyOp.run : ReadyOp → M (Option Nat)
  | .push t => do
    readyPush t
    return none
  | .pop => readyPop
  | .remove p => do
    readyRemoveProcess p
    return none

/-- Operations one after the other, and what each answers. -/
def runReady : List ReadyOp → M (List (Option Nat))
  | [] => return []
  | op :: ops => do
    let answer ← op.run
    let answers ← runReady ops
    return answer :: answers

/-! ### The queue as a list -/

section
variable (owner : Nat → Nat)

/-- The queue after an operation, and what it answers. -/
def ReadyOp.next (l : List Nat) : ReadyOp → List Nat × Option Nat
  | .push t => (l ++ [t], none)
  | .pop => (l.tail, l.head?)
  | .remove p => (l.filter fun t => owner t ≠ p, none)

def nextReady (l : List Nat) : List ReadyOp → List Nat × List (Option Nat)
  | [] => (l, [])
  | op :: ops =>
    let (l', answer) := op.next owner l
    let (l'', answers) := nextReady l' ops
    (l'', answer :: answers)

/-- An operation that puts no thread on the queue twice, nor one that does not exist. -/
def ReadyOp.Fits (cap : Nat) (l : List Nat) : ReadyOp → Prop
  | .push t => t < cap ∧ t ∉ l
  | _ => True

def FitsReady (cap : Nat) (l : List Nat) : List ReadyOp → Prop
  | [] => True
  | op :: ops => op.Fits cap l ∧ FitsReady cap (op.next owner l).1 ops

end

/-! ### Operations that return -/

section
variable {n : Nat} {s : K} {l : List Nat} {t p : Nat}

theorem Queue.push_returns (q : Queue l s) (inside : ∀ i ∈ l, i < s.threads.cap) (ht : t < s.threads.cap) :
    Lands n (readyPush t) (fun _ _ => True) s := by
  refine lands_bind (lands_modify ht (lands_bind (lands_reads ?_)))
  cases tail : s.readyTail with
  | none =>
    simp only [threads, tail]
    exact lands_modifies trivial
  | some i =>
    have mem : i ∈ l := List.mem_of_getLast? (q.tail.symm.trans tail)
    simp only [threads, tail]
    refine lands_bind (lands_modify (inside i mem) ?_)
    exact lands_modifies trivial

theorem Queue.pop_returns (q : Queue l s) (inside : ∀ i ∈ l, i < s.threads.cap) :
    Lands n readyPop (fun _ _ => True) s := by
  refine lands_bind (lands_reads ?_)
  cases head : s.readyHead with
  | none => exact lands_pure trivial
  | some i =>
    obtain ⟨l', rfl⟩ := q.of_head head
    have bound : i < s.threads.cap := inside i List.mem_cons_self
    refine lands_bind (lands_read bound (lands_bind (lands_modifies (lands_bind ?_))))
    refine lands_whenever (fun _ => lands_modifies ?_) fun _ => ?_
    · exact lands_bind (lands_modify bound (lands_pure trivial))
    · exact lands_bind (lands_modify bound (lands_pure trivial))

theorem link_returns {prev next : Option Nat} (hprev : ∀ i, prev = some i → i < s.threads.cap) :
    Lands n (readyLink prev next) (fun _ u => u.threads.cap = s.threads.cap) s := by
  cases prev with
  | none => exact lands_modifies rfl
  | some i =>
    unfold readyLink
    exact lands_modify (hprev i rfl) rfl

theorem unlink_returns {prev next : Option Nat} (ht : t < s.threads.cap)
    (hprev : ∀ i, prev = some i → i < s.threads.cap) :
    Lands n (readyUnlink prev t next) (fun _ _ => True) s := by
  refine lands_bind ((link_returns hprev).imp fun _ u cap => ?_)
  refine lands_bind (lands_reads (lands_bind (lands_whenever (fun _ => lands_modifies ?_) fun _ => ?_)))
  · exact lands_modify (cap ▸ ht) trivial
  · exact lands_modify (cap ▸ ht) trivial

/-- A removal takes no more rounds than there are threads on the queue. -/
theorem Queue.remove_returns (q : Queue l s) (inside : ∀ i ∈ l, i < s.threads.cap) (rounds : l.length < n) :
    Lands n (readyRemoveProcess p) (fun _ _ => True) s := by
  refine lands_bind
    (lands_reads (lands_loop (I := fun m at' u => ∃ pre rest, rest.length = m ∧ (∀ i ∈ pre ++ rest, i < u.threads.cap) ∧
    at'.1 = pre.getLast? ∧ at'.2 = rest.head? ∧ Queue (pre ++ rest) u) ?_
      ⟨[], l, rfl, inside, rfl, q.chain.head_eq, q⟩ rounds))
  rintro m ⟨prev, cur⟩ u ⟨pre, rest, length, within, prev_eq, cur_eq, queue⟩
  have prev_eq : prev = pre.getLast? := prev_eq
  have cur_eq : cur = rest.head? := cur_eq
  subst prev_eq cur_eq
  cases rest with
  | nil => exact lands_pure trivial
  | cons slot rest =>
    have hslot : slot < u.threads.cap := within slot (by simp)
    obtain ⟨k, -, rfl, back⟩ := Chain.append.mp queue.chain
    have fewer : rest.length < m := by simp [← length]
    refine lands_bind (lands_read hslot ?_)
    split
    · have place : Spares placeParts (readyUnlink pre.getLast? slot (u.threads.slot slot).link) := by simp +decide
      have gone : wp (fun _ => True) n (readyUnlink pre.getLast? slot (u.threads.slot slot).link)
          (fun _ v => Queue (pre ++ rest) v ∧ Agree placeParts u v) (.leaving (fun _ => True : K → Prop)) u :=
        queue.unlink.andSpares place
      have last : ∀ i, pre.getLast? = some i → i < u.threads.cap := fun i hi =>
        within i (List.mem_append_left _ (List.mem_of_getLast? hi))
      refine lands_bind (((unlink_returns hslot last).of_wp gone).imp fun _ v ⟨queue', same⟩ => lands_pure ?_)
      refine ⟨rest.length, fewer, pre, rest, rfl, fun i hi => ?_, rfl, back.head_eq, queue'⟩
      rw [← agree_threads_cap same (by decide)]
      exact within i (by simp only [List.mem_append, List.mem_cons] at hi ⊢; tauto)
    · refine lands_pure ⟨rest.length, fewer, pre ++ [slot], rest, rfl, fun i hi => within i (by simpa using hi),
        by simp, back.head_eq, by simpa using queue⟩

/-- What an operation makes of the queue. -/
theorem Queue.op {op : ReadyOp} (q : Queue l s) (inside : ∀ i ∈ l, i < s.threads.cap) (fits : op.Fits s.threads.cap l)
    (rounds : l.length < n) : Lands n op.run (fun answer u =>
      (op.next (fun i => (s.threads.slot i).process) l).2 = answer ∧
      Queue (op.next (fun i => (s.threads.slot i).process) l).1 u ∧ Agree placeParts s u) s := by
  cases op with
  | push t =>
    obtain ⟨ht, out⟩ := fits
    have place : Spares placeParts (readyPush t) := by simp +decide
    have pushed : wp (fun _ => True) n (readyPush t) (fun _ u => Queue (l ++ [t]) u ∧ Agree placeParts s u)
        (.leaving (fun _ => True : K → Prop)) s := (q.push out).andSpares place
    exact lands_bind (((q.push_returns inside ht).of_wp pushed).imp fun _ _ h => lands_pure ⟨rfl, h⟩)
  | pop =>
    have place : Spares placeParts readyPop := by simp +decide
    have popped : wp (fun _ => True) n readyPop (fun answer u => l.head? = answer ∧ Queue l.tail u)
        (.leaving (fun _ => True : K → Prop)) s := by
      cases head : s.readyHead with
      | none =>
        obtain rfl := q.empty head
        exact wp_readyPop_empty head ⟨rfl, q⟩
      | some t =>
        obtain ⟨l', rfl⟩ := q.of_head head
        exact wp_readyPop head fun _ => ⟨rfl, q.popped⟩
    exact ((q.pop_returns inside).of_wp (popped.andSpares place)).imp fun _ _ ⟨⟨answer, queue⟩, same⟩ =>
      ⟨answer, queue, same⟩
  | remove p =>
    have removed : wp (fun _ => True) n (readyRemoveProcess p)
        (fun _ u => Queue (l.filter fun t => (s.threads.slot t).process ≠ p) u ∧ Agree placeParts s u)
        (.leaving (fun _ => True : K → Prop)) s := q.remove
    exact lands_bind (((q.remove_returns inside rounds).of_wp removed).imp fun _ _ h => lands_pure ⟨rfl, h⟩)

omit [Hal] in
/-- The queue stays within the threads that there are. -/
theorem ReadyOp.Fits.inside {op : ReadyOp} {owner : Nat → Nat} {cap : Nat} (fits : op.Fits cap l)
    (inside : ∀ i ∈ l, i < cap) :
    ∀ i ∈ (op.next owner l).1, i < cap := by
  intro i mem
  cases op with
  | push t =>
    rcases List.mem_append.mp mem with old | new
    · exact inside i old
    · exact List.mem_singleton.mp new ▸ fits.1
  | pop => exact inside i (List.mem_of_mem_tail mem)
  | remove p => exact inside i (List.mem_of_mem_filter mem)

omit [Hal] in
theorem ReadyOp.next_length {op : ReadyOp} {owner : Nat → Nat} : (op.next owner l).1.length ≤ l.length + 1 := by
  cases op with
  | push t => simp [ReadyOp.next]
  | pop =>
    simp only [ReadyOp.next, List.length_tail]
    omega
  | remove p => exact Nat.le_succ_of_le (List.length_filter_le _ _)

/-- Any operations leave the queue as the list that they make of it, in which no thread is twice, and answer as they
    do of that list. -/
theorem queue_is_a_list {ops : List ReadyOp} (q : Queue l s) (inside : ∀ i ∈ l, i < s.threads.cap)
    (fits : FitsReady (fun i => (s.threads.slot i).process) s.threads.cap l ops) (rounds : l.length + ops.length < n) :
    Lands n (runReady ops) (fun answers u =>
      answers = (nextReady (fun i => (s.threads.slot i).process) l ops).2 ∧
      Queue (nextReady (fun i => (s.threads.slot i).process) l ops).1 u ∧
      (nextReady (fun i => (s.threads.slot i).process) l ops).1.Nodup ∧ Agree placeParts s u) s := by
  induction ops generalizing l s with
  | nil => exact lands_pure ⟨rfl, q, q.chain.nodup, Agree.refl s⟩
  | cons op ops ih =>
    obtain ⟨first, rest⟩ := fits
    simp only [List.length_cons] at rounds
    refine lands_bind ((q.op inside first (by omega)).imp ?_)
    rintro _ u ⟨rfl, queue, same⟩
    have owner : (fun i => (u.threads.slot i).process) = fun i => (s.threads.slot i).process :=
      funext fun i => ((same (.thread .process) (by decide) i).1).symm
    have cap : u.threads.cap = s.threads.cap := (agree_threads_cap same (by decide)).symm
    have length : (op.next (fun i => (s.threads.slot i).process) l).1.length ≤ l.length + 1 := op.next_length
    have after := ih queue (cap ▸ first.inside inside) (by rw [owner, cap]; exact rest) (by omega)
    rw [owner] at after
    refine lands_bind (after.imp ?_)
    rintro _ v ⟨rfl, queue', once, same'⟩
    exact lands_pure ⟨rfl, queue', once, same.trans same'⟩

end

end

section

attribute [local instance] sampleBuild sampleTarget Riscv32.board

/-- Threads of two processes in turn. -/
def K.shared : K := { K.zero with threads := ⟨maxThreads, fun i => { ThreadSlot.vacant with process := i % 2 }, []⟩ }

/-- Of four threads those of a process are removed, the oldest is taken, and one of those removed comes back. -/
theorem queue_is_a_list_shared :
    Lands 64 (runReady [.push 0, .push 1, .push 2, .push 3, .remove 1, .pop, .push 1]) (fun answers u =>
      answers = [none, none, none, none, none, some 0, none] ∧ Queue [2, 1] u) K.shared := by
  have empty : Queue [] (K.shared : K) := ⟨rfl, rfl⟩
  have fits : FitsReady (fun i => ((K.shared : K).threads.slot i).process) (K.shared : K).threads.cap []
      [.push 0, .push 1, .push 2, .push 3, .remove 1, .pop, .push 1] := by
    simp [FitsReady, ReadyOp.Fits, ReadyOp.next, K.shared, maxThreads]
  exact (queue_is_a_list empty (by simp) fits (by decide)).imp fun _ _ ⟨answers, queue, _⟩ => ⟨answers, queue⟩

/-- A thread that is pushed twice is behind itself on the queue, which is no list then. -/
theorem pushed_twice : Queue [] (K.zero : K) ∧ Lands 64 (runReady [.push 1, .push 1])
    (fun _ u => ∀ l, ¬Queue l u) K.zero := by
  refine ⟨⟨rfl, rfl⟩, _, _, _, rfl, fun l q => ?_⟩
  obtain ⟨l', rfl⟩ := q.of_head (t := 1) rfl
  obtain ⟨-, rest⟩ := q.chain
  have again : some 1 = l'.head? := rest.head_eq
  exact (List.nodup_cons.mp q.chain.nodup).1 (List.mem_of_mem_head? again.symm)

end

end Sawos
