import Sawos.Kernel.Endings
import Sawos.Lib.Chain

/-! # The ready queue

The threads that are ready are linked through their slots, from the one that runs next to the one that was made ready
last. -/

namespace Sawos
open Exec

variable [Hal]

def K.links (s : K) : Nat → Option Nat := fun t => (s.threads.slot t).link

/-- The ready queue is the list `l`. -/
structure Queue (l : List Nat) (s : K) : Prop where
  chain : Chain s.links s.readyHead l none
  tail : s.readyTail = l.getLast?

/-- What no change of the queue has to do with. -/
def placeParts : List Part := [.thread .state, .thread .process, .thread .exitCode, .thread .joiners, .thread .waitBuf,
  .thread .callPipe, .thread .callClaim, .thread .callArgs, .machine .current, .machine .slabs]

section
variable {s u : K} {l : List Nat} {t : Nat}

theorem Queue.agree (h : Agree [.thread .link, .machine .ready] s u) (q : Queue l s) : Queue l u := by
  obtain ⟨head, tail⟩ : s.readyHead = u.readyHead ∧ s.readyTail = u.readyTail := h (.machine .ready) (by decide)
  have link : ∀ i, (s.threads.slot i).link = (u.threads.slot i).link := h (.thread .link) (by decide)
  exact ⟨head ▸ q.chain.congr fun i _ => link i, tail ▸ q.tail⟩

/-- A thread that is not on the queue is nothing to it. -/
theorem Queue.other (q : Queue l s) (out : t ∉ l) {v : ThreadSlot} :
    Queue l { s with threads := s.threads.set t v } := by
  refine ⟨q.chain.congr fun i hi => ?_, q.tail⟩
  have other : i ≠ t := fun same => out (same ▸ hi)
  simp [K.links, other]

theorem Queue.of_head (q : Queue l s) (head : s.readyHead = some t) : ∃ l', l = t :: l' := by
  have first := q.chain.head_eq
  rw [head] at first
  cases l with
  | nil => cases first
  | cons i l' =>
    cases first
    exact ⟨l', rfl⟩

theorem Queue.empty (q : Queue l s) (head : s.readyHead = none) : l = [] := by
  have first := q.chain.head_eq
  rw [head] at first
  exact List.head?_eq_none_iff.mp first.symm

theorem Queue.popped (q : Queue (t :: l) s) : Queue l (s.popped t) := by
  obtain ⟨-, rest⟩ := q.chain
  have once := List.nodup_cons.mp q.chain.nodup
  refine ⟨Chain.congr (fun i hi => ?_) rest, ?_⟩
  · have other : i ≠ t := fun same => once.1 (same ▸ hi)
    simp [K.links, K.popped, other]
  · have tail := q.tail
    have next : (s.threads.slot t).link = l.head? := rest.head_eq
    cases l with
    | nil => simp [K.popped, next]
    | cons i l' => simpa [K.popped, next] using tail

end

section
variable {G : Ev → Prop} {n : Nat} {A : Conduct K Ev} {s : K} {l : List Nat} {t : Nat}

/-- The thread goes to the end of the queue. -/
theorem Queue.push (q : Queue l s) (out : t ∉ l) : wp G n (readyPush t) (fun _ => Queue (l ++ [t])) (.leaving A) s := by
  refine wp_bind.mpr (wp_modifyThread.mpr fun _ => wp_bind.mpr (wp_reads.mpr ?_))
  have q := q.other out (v := { s.threads.slot t with link := none })
  have tail := q.tail
  cases last : s.readyTail with
  | none =>
    rw [show ({ s with threads := s.threads.set t { s.threads.slot t with link := none } } : K).readyTail = none
      from last] at tail
    obtain rfl := List.getLast?_eq_none_iff.mp tail.symm
    exact wp_modifies.mpr ⟨⟨rfl, by simp [K.links]⟩, rfl⟩
  | some i =>
    rw [show ({ s with threads := s.threads.set t { s.threads.slot t with link := none } } : K).readyTail = some i
      from last] at tail
    have mem : i ∈ l := List.mem_of_getLast? tail.symm
    have other : t ≠ i := fun same => out (same ▸ mem)
    refine wp_bind.mpr (wp_modifyThread.mpr fun _ => wp_modifies.mpr ⟨Chain.append.mpr ⟨some t, ?_, rfl, ?_⟩, ?_⟩)
    · have linked := q.chain.relink (x := some t) q.chain.nodup
      rw [← tail] at linked
      refine linked.congr fun j _ => ?_
      by_cases same : j = i
      · simp [K.links, Chain.relinked, same]
      · have other' : i ≠ j := fun h => same h.symm
        simp [K.links, Chain.relinked, same, other']
    · simp [K.links, other]
    · simp

/-- The link after `prev`, or the head, is pointed at `next`. -/
theorem wp_readyLink {prev next : Option Nat} : wp G n (readyLink prev next) (fun _ u =>
    u.links = Chain.relinked s.links prev next ∧ u.readyHead = Chain.rehead s.readyHead prev next ∧
      u.readyTail = s.readyTail)
    (.leaving A) s := by
  cases prev with
  | none =>
    refine wp_modifies.mpr ⟨?_, rfl, rfl⟩
    funext i
    simp [K.links, Chain.relinked]
  | some q =>
    unfold readyLink
    refine wp_modifyThread.mpr fun _ => ⟨?_, rfl, rfl⟩
    funext i
    by_cases same : i = q
    · simp [K.links, Chain.relinked, same]
    · have other : q ≠ i := fun h => same h.symm
      simp [K.links, Chain.relinked, same, other]

/-- The thread goes from the queue. -/
theorem Queue.unlink {pre rest : List Nat} (q : Queue (pre ++ t :: rest) s) :
    wp G n (readyUnlink pre.getLast? t (s.threads.slot t).link) (fun _ => Queue (pre ++ rest)) (.leaving A) s := by
  obtain ⟨out, once⟩ := List.nodup_cons.mp (List.nodup_middle.mp q.chain.nodup)
  obtain ⟨k, front, rfl, back⟩ := Chain.append.mp q.chain
  have last : s.readyTail = (t :: rest).getLast? := by
    rw [q.tail, List.getLast?_append_of_ne_nil _ (List.cons_ne_nil _ _)]
  refine wp_bind.mpr (wp_readyLink.imp fun _ u ⟨links, head, tail⟩ => ?_)
  have chain : Chain u.links u.readyHead (pre ++ rest) none := by
    rw [links, head]
    exact Chain.append.mpr ⟨_, front.relink (List.nodup_append.mp once).1, back.relink_rest once⟩
  rw [last] at tail
  refine wp_bind.mpr (wp_reads.mpr (wp_bind.mpr (wp_whenever.mpr ⟨fun isLast => wp_modifies.mpr ?_, fun inner => ?_⟩)))
  · cases rest with
    | nil =>
      have queue : Queue (pre ++ []) { u with readyTail := pre.getLast? } := ⟨chain, by simp⟩
      exact wp_modifyThread.mpr fun _ => queue.other out
    | cons i rest =>
      rw [tail, List.getLast?_cons_cons, decide_eq_true_eq] at isLast
      exact absurd (List.mem_append_right _ (List.mem_of_getLast? isLast)) out
  · cases rest with
    | nil =>
      rw [tail] at inner
      simp at inner
    | cons i rest =>
      rw [List.getLast?_cons_cons] at tail
      refine wp_modifyThread.mpr fun _ => Queue.other ⟨chain, ?_⟩ out
      rw [tail, List.getLast?_append_of_ne_nil _ (List.cons_ne_nil _ _)]

/-- How far the removal of threads from the queue has come: `pre` is what stays of what is before the link. -/
structure Removing (s : K) (l : List Nat) (stays : Nat → Bool) (at' : Option Nat × Option Nat) (u : K)
    (pre rest : List Nat) :
    Prop where
  prev : at'.1 = pre.getLast?
  cur : at'.2 = rest.head?
  queue : Queue (pre ++ rest) u
  same : Agree placeParts s u
  kept : pre ++ rest.filter stays = l.filter stays

/-- The threads of a process go from the queue, and the others stay in their order. -/
theorem Queue.remove {p : Nat} (q : Queue l s) : wp G n (readyRemoveProcess p) (fun _ u =>
    Queue (l.filter fun t => (s.threads.slot t).process ≠ p) u ∧ Agree placeParts s u) (.leaving A) s := by
  refine wp_bind.mpr
    (wp_reads.mpr
      (wp_loop (I := fun at' u => ∃ pre rest, Removing s l (fun t => (s.threads.slot t).process ≠ p) at' u pre rest)
    ?_ ⟨[], l, rfl, q.chain.head_eq, q, Agree.refl s, rfl⟩))
  rintro ⟨prev, cur⟩ u ⟨pre, rest, h⟩
  have prev_eq : prev = pre.getLast? := h.prev
  have cur_eq : cur = rest.head? := h.cur
  subst prev_eq cur_eq
  have chain := h.queue.chain
  cases rest with
  | nil =>
    have kept := h.kept
    rw [List.filter_nil, List.append_nil] at kept
    rw [← kept]
    exact wp_pure.mpr ⟨by simpa using h.queue, h.same⟩
  | cons slot rest =>
    obtain ⟨k, -, rfl, back⟩ := Chain.append.mp chain
    have owner : (s.threads.slot slot).process = (u.threads.slot slot).process :=
      (h.same (.thread .process) (by decide) slot).1
    have kept := h.kept
    refine wp_bind.mpr (wp_readThread.mpr fun hs => wp_ite.mpr ⟨fun mine => ?_, fun other => wp_pure.mpr ?_⟩)
    · have place : Spares placeParts (readyUnlink pre.getLast? slot (u.threads.slot slot).link) := by simp +decide
      refine wp_bind.mpr ((h.queue.unlink.andSpares place).imp fun _ v ⟨queue, same⟩ => wp_pure.mpr ?_)
      refine ⟨pre, rest, rfl, back.head_eq, queue, h.same.trans same, ?_⟩
      rw [← kept, List.filter_cons_of_neg (by simp [owner, mine])]
    · refine ⟨pre ++ [slot], rest, by simp, back.head_eq, by simpa using h.queue, h.same, ?_⟩
      rw [← kept, List.filter_cons_of_pos (by simp [owner, other]), List.append_assoc, List.singleton_append]

end
end Sawos
