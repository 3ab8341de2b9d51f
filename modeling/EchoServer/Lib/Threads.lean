import Mathlib.Tactic

/-!
# Threads as instruction stacks, and what they hold

A pool of threads is a list of stacks : each stack is the instructions its thread has
still to execute, the next one first. Executing an instruction pops it and pushes what
it expands to (`exec`), so a function call, an early return and a loop are pushes of
their own, and a thread that has finished keeps an empty stack.

`weight w` sums a weight over every instruction of every stack. With `w` the number of
tokens a thread holds while an instruction is ahead of it, the token count of the pool
changes by what is pushed and popped (`weight_exec`) and by what is spawned
(`weight_spawn`). An invariant that says where each token is then needs no name for the
thread that holds it.
-/

/-- Threads, each the stack of instructions it has still to execute. -/
abbrev Threads (ι : Type*) := List (List ι)

namespace Threads

variable {ι : Type*}

/-- The instruction thread `i` executes next. -/
def head (ts : Threads ι) (i : ℕ) : Option ι :=
  ts[i]?.bind List.head?

/-- Thread `i` pops the instruction it executes and pushes `new`. -/
def exec (ts : Threads ι) (i : ℕ) (new : List ι) : Threads ι :=
  ts.modify i fun t => new ++ t.tail

/-- A new thread with the stack `t`. -/
def spawn (ts : Threads ι) (t : List ι) : Threads ι :=
  ts ++ [t]

/-- The weight of a stack. -/
def stackWeight (w : ι → ℕ) (t : List ι) : ℕ :=
  (t.map w).sum

/-- The weight of every stack of the pool. -/
def weight (w : ι → ℕ) (ts : Threads ι) : ℕ :=
  (ts.map (stackWeight w)).sum

variable (w : ι → ℕ)

@[simp] theorem stackWeight_nil : stackWeight w [] = 0 :=
  rfl

@[simp] theorem stackWeight_cons (c : ι) (t : List ι) :
    stackWeight w (c :: t) = w c + stackWeight w t := by
  simp [stackWeight]

/-- The weights of two stretches of a stack add up. -/
theorem stackWeight_append (s t : List ι) :
    stackWeight w (s ++ t) = stackWeight w s + stackWeight w t := by
  simp [stackWeight]

theorem stackWeight_replicate (n : ℕ) (c : ι) :
    stackWeight w (List.replicate n c) = n * w c := by
  simp [stackWeight]

@[simp] theorem weight_nil : weight w [] = 0 :=
  rfl

/-- A spawned thread adds the weight of its stack. -/
@[simp] theorem weight_spawn (ts : Threads ι) (t : List ι) :
    weight w (ts.spawn t) = weight w ts + stackWeight w t := by
  simp [weight, spawn]

/-- The instruction a thread executes next is in its stack. -/
theorem mem_of_head {ts : Threads ι} {i : ℕ} {c : ι} (h : ts.head i = some c) :
    ∃ t ∈ ts, c ∈ t := by
  obtain ⟨t, ht, hc⟩ := Option.bind_eq_some_iff.mp h
  exact ⟨t, List.mem_of_getElem? ht, List.mem_of_head? hc⟩

/-- The instruction a thread executes next is part of the pool's weight. -/
theorem le_weight {ts : Threads ι} {i : ℕ} {c : ι} (h : ts.head i = some c) :
    w c ≤ weight w ts := by
  obtain ⟨t, ht, hc⟩ := Option.bind_eq_some_iff.mp h
  obtain ⟨rest, rfl⟩ := List.head?_eq_some_iff.mp hc
  have hmem : stackWeight w (c :: rest) ∈ ts.map (stackWeight w) :=
    List.mem_map_of_mem (List.mem_of_getElem? ht)
  have hle := List.le_sum_of_mem hmem
  rw [stackWeight_cons] at hle
  exact le_trans (Nat.le_add_right _ _) hle

/-- An instruction that is ahead of some thread is part of the pool's weight. -/
theorem le_weight_of_mem {ts : Threads ι} {t : List ι} {c : ι} (ht : t ∈ ts) (hc : c ∈ t) :
    w c ≤ weight w ts :=
  (List.le_sum_of_mem (List.mem_map_of_mem hc)).trans
    (List.le_sum_of_mem (List.mem_map_of_mem (f := stackWeight w) ht))

/-- A pool with weight has an instruction with weight. -/
theorem exists_of_weight_pos {ts : Threads ι} (h : 0 < weight w ts) :
    ∃ t ∈ ts, ∃ c ∈ t, 0 < w c := by
  by_contra! hnone
  have hzero : weight w ts = 0 := by
    refine List.sum_eq_zero_iff.mpr fun n hn => ?_
    obtain ⟨t, ht, rfl⟩ := List.mem_map.mp hn
    refine List.sum_eq_zero_iff.mpr fun n hn => ?_
    obtain ⟨c, hc, rfl⟩ := List.mem_map.mp hn
    exact Nat.le_zero.mp (hnone t ht c hc)
  omega

/-- What counts no more in any instruction counts no more in the pool. -/
theorem weight_mono {w v : ι → ℕ} (h : ∀ c, w c ≤ v c) (ts : Threads ι) :
    weight w ts ≤ weight v ts :=
  List.sum_le_sum fun _ _ => List.sum_le_sum fun c _ => h c

theorem stackWeight_eq_zero {w : ι → ℕ} {t : List ι} (h : ∀ c ∈ t, w c = 0) :
    stackWeight w t = 0 := by
  rw [stackWeight, List.sum_eq_zero_iff]
  intro n hn
  obtain ⟨c, hc, rfl⟩ := List.mem_map.mp hn
  exact h c hc

/-- Two weights are summed together. -/
theorem weight_add (w v : ι → ℕ) (ts : Threads ι) :
    weight (fun c => w c + v c) ts = weight w ts + weight v ts := by
  have hstack : stackWeight (fun c => w c + v c) = fun t => stackWeight w t + stackWeight v t :=
    funext fun t => List.sum_map_add
  rw [weight, hstack]
  exact List.sum_map_add

/-- Executing an instruction trades its weight for the weight of what it pushes. -/
theorem weight_exec {ts : Threads ι} {i : ℕ} {c : ι} (h : ts.head i = some c)
    (new : List ι) : weight w (ts.exec i new) + w c = weight w ts + stackWeight w new := by
  induction ts generalizing i with
  | nil => simp [head] at h
  | cons t ts ih =>
    cases i with
    | zero =>
      obtain ⟨rest, rfl⟩ : ∃ rest, t = c :: rest := by
        simpa [head, List.head?_eq_some_iff] using h
      simp only [weight, exec, List.modify_zero_cons, List.tail_cons, List.map_cons,
        List.sum_cons, stackWeight_append, stackWeight_cons]
      omega
    | succ i =>
      have hi : Threads.head ts i = some c := by simpa [head] using h
      have := ih hi
      simp only [weight, exec, List.modify_succ_cons, List.map_cons, List.sum_cons] at this ⊢
      omega

/-- The head of a thread is what it has still to do first. -/
theorem head_eq_some {ts : Threads ι} {i : ℕ} {c : ι} :
    ts.head i = some c ↔ ∃ rest, ts[i]? = some (c :: rest) := by
  rw [head, Option.bind_eq_some_iff]
  constructor
  · rintro ⟨t, ht, hc⟩
    obtain ⟨rest, rfl⟩ := List.head?_eq_some_iff.mp hc
    exact ⟨rest, ht⟩
  · rintro ⟨rest, h⟩
    exact ⟨_, h, rfl⟩

/-- Executing an instruction puts what it expands to before the rest. -/
theorem getElem?_exec {ts : Threads ι} {i : ℕ} {c : ι} {rest : List ι}
    (h : ts[i]? = some (c :: rest)) (new : List ι) : (ts.exec i new)[i]? = some (new ++ rest) := by
  simp [exec, h]

/-- And leaves the other threads as they are. -/
theorem getElem?_exec_of_ne (ts : Threads ι) {i j : ℕ} (h : i ≠ j) (new : List ι) :
    (ts.exec i new)[j]? = ts[j]? := by
  simp [exec, h]

/-- What holds of every stack still does if it does of the stack that has changed. -/
theorem forall_exec {P : List ι → Prop} {ts : Threads ι} {i : ℕ} {c : ι} {new : List ι}
    (h : ts.head i = some c) (hts : ∀ t ∈ ts, P t)
    (hnew : ∀ rest, P (c :: rest) → P (new ++ rest)) : ∀ t ∈ ts.exec i new, P t := by
  intro t ht
  obtain ⟨t₀, ht₀, hc⟩ := Option.bind_eq_some_iff.mp h
  obtain ⟨rest, rfl⟩ := List.head?_eq_some_iff.mp hc
  obtain ⟨k, hk⟩ := List.mem_iff_getElem?.mp ht
  rw [exec, List.getElem?_modify] at hk
  by_cases hik : i = k
  · subst hik
    simp only [ht₀, ↓reduceIte, Option.map_eq_map, Option.map_some, List.tail_cons] at hk
    rw [← Option.some.inj hk]
    exact hnew rest (hts _ (List.mem_of_getElem? ht₀))
  · simp only [hik, ↓reduceIte, Option.map_eq_map, Option.map_id_fun', id_eq] at hk
    exact hts t (List.mem_of_getElem? hk)

/-- What a thread pushes is ahead of it. -/
theorem mem_exec_of_mem {ts : Threads ι} {i : ℕ} {c o : ι} {new : List ι} (h : ts.head i = some c)
    (ho : o ∈ new) : ∃ t ∈ ts.exec i new, o ∈ t := by
  obtain ⟨rest, hi⟩ := head_eq_some.mp h
  exact ⟨_, List.mem_of_getElem? (getElem?_exec hi new), List.mem_append_left _ ho⟩

/-- An instruction is executed, or stays ahead. -/
theorem mem_or_mem_exec {ts : Threads ι} {i : ℕ} {c o : ι} {t : List ι} (h : ts.head i = some c)
    (ht : t ∈ ts) (ho : o ∈ t) (new : List ι) : o = c ∨ ∃ t' ∈ ts.exec i new, o ∈ t' := by
  obtain ⟨rest, hi⟩ := head_eq_some.mp h
  obtain ⟨j, hj⟩ := List.mem_iff_getElem?.mp ht
  by_cases hij : i = j
  · subst hij
    obtain rfl : c :: rest = t := Option.some.inj (hi.symm.trans hj)
    obtain rfl | ho := List.mem_cons.mp ho
    · exact Or.inl rfl
    · exact Or.inr ⟨_, List.mem_of_getElem? (getElem?_exec hi new), List.mem_append_right _ ho⟩
  · rw [← getElem?_exec_of_ne ts hij new] at hj
    exact Or.inr ⟨t, List.mem_of_getElem? hj, ho⟩

end Threads
