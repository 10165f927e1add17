import DefTally.Proofs.Grammar.Derivation
import Mathlib.Data.List.Basic

/-!
# The rounds of a parse

A parse steps all threads together, round by round. Rounds in which no thread can read a whole text
any more change nothing (`run_add`), threads that never read a whole text can be left out
(`run_filter`), and places can be exchanged for others from which the text goes on alike
(`run_relocate`).
-/

namespace DefTally.Grammar

variable {σ ρ : Type} {a : Automaton σ} {r : Reader ρ} {chain n : Nat} {threads : List (Thread σ ρ)}
  {results : List (Progress σ ρ)}

/-! ## One round -/

theorem onward_append (xs ys : List (Progress σ ρ)) : onward (xs ++ ys) = onward xs ++ onward ys := by
  fun_induction onward xs with
  | case1 => rfl
  | case2 t rest ih => rw [List.cons_append, onward, ih, List.cons_append]
  | case3 tree rest ih => rw [List.cons_append, onward, ih]

theorem firstWhole_append (xs ys : List (Progress σ ρ)) :
    firstWhole (xs ++ ys) = (firstWhole xs <|> firstWhole ys) := by
  fun_induction firstWhole xs with
  | case1 => rfl
  | case2 t rest ih => rw [List.cons_append, firstWhole, ih]
  | case3 tree rest => rw [List.cons_append, firstWhole]; rfl

theorem firstWhole_eq_none (none_ : ∀ tree, .whole tree ∉ results) : firstWhole results = none := by
  cases found : firstWhole results with
  | none => rfl
  | some tree => exact absurd (firstWhole_mem found) (none_ tree)

theorem run_nil [BEq σ] (a : Automaton σ) (r : Reader ρ) (chain n : Nat) :
    run a r chain n ([] : List (Thread σ ρ)) = none := by
  cases n <;> rfl

/-- A round steps all threads and goes on with those that have not come to the same point. -/
theorem run_succ [BEq σ] (a : Automaton σ) (r : Reader ρ) (chain n : Nat)
    (threads : List (Thread σ ρ)) : run a r chain (n + 1) threads =
      match firstWhole (threads.flatMap (Thread.step a r chain)) with
      | some tree => some tree
      | none => run a r chain n (distinct r (onward (threads.flatMap (Thread.step a r chain)))) := by
  cases threads with
  | nil => simp [run, onward, firstWhole, distinct, run_nil]
  | cons thread rest => rfl

/-! ## Rounds that change nothing -/

/-- A property of the threads of each round that is kept from round to round. -/
def Kept (a : Automaton σ) (r : Reader ρ) (chain : Nat) (P : Nat → Thread σ ρ → Prop) : Prop :=
  ∀ i th th', P i th → .onward th' ∈ th.step a r chain → P (i + 1) th'

variable {P : Nat → Thread σ ρ → Prop} {bound i : Nat}

theorem Kept.onward (kept : Kept a r chain P) (all : ∀ th ∈ threads, P i th) :
    ∀ th ∈ onward (threads.flatMap (Thread.step a r chain)), P (i + 1) th := by
  intro th inside
  obtain ⟨before, among, stepped⟩ := List.mem_flatMap.1 (mem_onward inside)
  exact kept i before th (all before among) stepped

theorem Kept.round [BEq σ] (kept : Kept a r chain P) (all : ∀ th ∈ threads, P i th) :
    ∀ th ∈ distinct r (Grammar.onward (threads.flatMap (Thread.step a r chain))), P (i + 1) th :=
  fun th inside => kept.onward all th (mem_of_mem_distinct inside)

/-- Nothing is read once no thread can read a whole text any more. -/
theorem run_late [BEq σ] (kept : Kept a r chain P)
    (late : ∀ i th tree, bound ≤ i → P i th → .whole tree ∉ th.step a r chain) (n : Nat) :
    ∀ {i threads}, bound ≤ i → (∀ th ∈ threads, P i th) → run a r chain n threads = none := by
  induction n with
  | zero => exact fun _ _ => rfl
  | succ n ih =>
    intro i threads past all
    have none_ : firstWhole (threads.flatMap (Thread.step a r chain)) = none := by
      apply firstWhole_eq_none
      intro tree inside
      obtain ⟨th, among, stepped⟩ := List.mem_flatMap.1 inside
      exact late i th tree past (all th among) stepped
    rw [run_succ, none_]
    exact ih (Nat.le_succ_of_le past) (kept.round all)

/-- More rounds find nothing more than those in which a whole text can be read. -/
theorem run_add [BEq σ] (kept : Kept a r chain P)
    (late : ∀ i th tree, bound ≤ i → P i th → .whole tree ∉ th.step a r chain) (n more : Nat) :
    ∀ {i threads}, bound ≤ i + n → (∀ th ∈ threads, P i th) →
      run a r chain (n + more) threads = run a r chain n threads := by
  induction n with
  | zero =>
    intro i threads past all
    exact run_late kept late _ past all
  | succ n ih =>
    intro i threads past all
    rw [Nat.add_right_comm, run_succ, run_succ, ih (by omega) (kept.round all)]

/-! ## Threads that are left out -/

theorem distinct_concat [BEq σ] (r : Reader ρ) (threads : List (Thread σ ρ)) (last : Thread σ ρ) :
    distinct r (threads ++ [last]) =
      if (distinct r threads).any (last.same r ·) then distinct r threads
      else distinct r threads ++ [last] := by
  simp [distinct]

theorem distinct_filter [BEq σ] {live : Thread σ ρ → Bool}
    (agree : ∀ t ∈ threads, ∀ u ∈ threads, t.same r u = true → live t = live u) :
    (distinct r threads).filter live = distinct r (threads.filter live) := by
  induction threads using List.reverseRecOn with
  | nil => rfl
  | append_singleton rest last ih =>
    have ih := ih fun t inT u inU => agree t (List.mem_append_left _ inT) u (List.mem_append_left _ inU)
    rw [distinct_concat, List.filter_append]
    cases alive : live last with
    | false =>
      rw [List.filter_cons_of_neg (by simp [alive]), List.filter_nil, List.append_nil, ← ih]
      split
      · rfl
      · rw [List.filter_append, List.filter_cons_of_neg (by simp [alive]), List.filter_nil,
          List.append_nil]
    | true =>
      -- a thread that the last one goes on like is live too
      have among : ((distinct r rest).filter live).any (last.same r ·) =
          (distinct r rest).any (last.same r ·) := by
        rw [Bool.eq_iff_iff, List.any_eq_true, List.any_eq_true]
        constructor
        · rintro ⟨u, inside, same⟩
          exact ⟨u, (List.mem_filter.1 inside).1, same⟩
        · rintro ⟨u, inside, same⟩
          have inRest := List.mem_append_left [last] (mem_of_mem_distinct inside)
          have alike := agree last (List.mem_append_right _ List.mem_cons_self) u inRest same
          exact ⟨u, List.mem_filter.2 ⟨inside, alike ▸ alive⟩, same⟩
      rw [List.filter_cons_of_pos alive, List.filter_nil, distinct_concat, ← ih, among]
      split
      · rfl
      · rw [List.filter_append, List.filter_cons_of_pos alive, List.filter_nil]

/-- Threads that are not live never read a whole text, and neither do those that come of them. -/
structure Lost [BEq σ] (a : Automaton σ) (r : Reader ρ) (chain : Nat) (P : Nat → Thread σ ρ → Prop)
    (live : Thread σ ρ → Bool) : Prop where
  agree : ∀ i t u, P i t → P i u → t.same r u = true → live t = live u
  whole : ∀ i th tree, P i th → live th = false → .whole tree ∉ th.step a r chain
  onward : ∀ i th th', P i th → live th = false → .onward th' ∈ th.step a r chain → live th' = false

variable {live : Thread σ ρ → Bool}

/-- The results of a round but for threads that are not live. -/
theorem Lost.round [BEq σ] (lost : Lost a r chain P live) (all : ∀ th ∈ threads, P i th) :
    firstWhole ((threads.filter live).flatMap (Thread.step a r chain)) =
        firstWhole (threads.flatMap (Thread.step a r chain)) ∧
      (Grammar.onward ((threads.filter live).flatMap (Thread.step a r chain))).filter live =
        (Grammar.onward (threads.flatMap (Thread.step a r chain))).filter live := by
  induction threads with
  | nil => exact ⟨rfl, rfl⟩
  | cons th rest ih =>
    obtain ⟨whole, onward_⟩ := ih fun t inside => all t (List.mem_cons_of_mem _ inside)
    have here := all th List.mem_cons_self
    rw [List.flatMap_cons, firstWhole_append, onward_append, List.filter_append]
    cases alive : live th with
    | true =>
      rw [List.filter_cons_of_pos alive, List.flatMap_cons, firstWhole_append, onward_append,
        List.filter_append, whole, onward_]
      exact ⟨rfl, rfl⟩
    | false =>
      have noWhole : firstWhole (th.step a r chain) = none :=
        firstWhole_eq_none fun tree => lost.whole i th tree here alive
      have noneLive : (Grammar.onward (th.step a r chain)).filter live = [] := by
        rw [List.filter_eq_nil_iff]
        intro th' inside
        simp [lost.onward i th th' here alive (mem_onward inside)]
      rw [List.filter_cons_of_neg (by simp [alive]), noWhole, noneLive, whole, onward_]
      exact ⟨by simp, rfl⟩

/-- Threads that are not live can be left out. -/
theorem run_filter [BEq σ] (kept : Kept a r chain P) (lost : Lost a r chain P live) (n : Nat) :
    ∀ {i threads}, (∀ th ∈ threads, P i th) →
      run a r chain n (threads.filter live) = run a r chain n threads := by
  induction n with
  | zero => exact fun _ => rfl
  | succ n ih =>
    intro i threads all
    have fewer : ∀ th ∈ threads.filter live, P i th := fun th inside =>
      all th (List.mem_filter.1 inside).1
    obtain ⟨whole, onward_⟩ := lost.round all
    have agree : ∀ threads : List (Thread σ ρ), (∀ th ∈ threads, P (i + 1) th) →
        ∀ t ∈ threads, ∀ u ∈ threads, t.same r u = true → live t = live u :=
      fun _ all t inT u inU => lost.agree _ t u (all t inT) (all u inU)
    rw [run_succ, run_succ, whole, ← ih (kept.round fewer), ← ih (kept.round all),
      distinct_filter (agree _ (kept.onward fewer)), distinct_filter (agree _ (kept.onward all)),
      onward_]

/-! ## Places that are exchanged -/

/-- The thread at another place. -/
def Thread.relocate (move : ρ → ρ) (th : Thread σ ρ) : Thread σ ρ := { th with place := move th.place }

/-- What a step leads to, at another place. -/
def Progress.relocate (move : ρ → ρ) : Progress σ ρ → Progress σ ρ
  | .onward th => .onward (th.relocate move)
  | .whole tree => .whole tree

variable {move : ρ → ρ}

theorem onward_relocate (results : List (Progress σ ρ)) :
    onward (results.map (.relocate move)) = (onward results).map (.relocate move) := by
  fun_induction onward results with
  | case1 => rfl
  | case2 t rest ih => rw [List.map_cons, Progress.relocate, onward, ih, List.map_cons]
  | case3 tree rest ih => rw [List.map_cons, Progress.relocate, onward, ih]

theorem firstWhole_relocate (results : List (Progress σ ρ)) :
    firstWhole (results.map (.relocate move)) = firstWhole results := by
  fun_induction firstWhole results with
  | case1 => rfl
  | case2 t rest ih => rw [List.map_cons, Progress.relocate, firstWhole, ih]
  | case3 tree rest => rfl

theorem distinct_relocate [BEq σ] (same : ∀ p q, r.same (move p) (move q) = r.same p q)
    (threads : List (Thread σ ρ)) :
    distinct r (threads.map (.relocate move)) = (distinct r threads).map (.relocate move) := by
  induction threads using List.reverseRecOn with
  | nil => rfl
  | append_singleton rest last ih =>
    have alike : ∀ t u : Thread σ ρ, (t.relocate move).same r (u.relocate move) = t.same r u := by
      intro t u
      simp only [Thread.same, Thread.relocate, same]
    rw [List.map_append, List.map_singleton, distinct_concat, ih, List.any_map, distinct_concat]
    simp only [Function.comp_def, alike]
    split <;> simp

/-- The place after the token is only passed on. -/
theorem resolve_relocate (a : Automaton σ) (r : Reader ρ) (move : ρ → ρ) (after : ρ) (fuel : Nat) :
    ∀ token stack, resolve a r (move after) fuel token stack =
      (resolve a r after fuel token stack).map (.relocate move) := by
  induction fuel with
  | zero => exact fun _ _ => rfl
  | succ fuel ih =>
    intro token stack
    rw [resolve, resolve, List.map_append, List.map_flatMap]
    congr 1
    · congr 1
      funext p
      split
      · cases wholeTree stack <;> rfl
      · cases a.reduce stack p with
        | none => rfl
        | some stack' => exact ih _ stack'
    · split
      · cases a.push stack (.leaf (r.meaning a (a.top stack) token)) <;> rfl
      · rfl

section Unshifted

variable {f : Facts} {view : σ → Kernel} {token : Nat} {stack : List (Frame σ)}

/-- A token that stands in no production is not shifted. -/
theorem onward_not_mem_resolve (mirrors : Mirrors f.grammar a f.automaton view)
    (closed : f.grammar.Closed) (fits : token < f.grammar.tokens) (plain : r.plain token = none)
    (unread : ∀ p ∈ f.grammar.allProductions, .token token ∉ p.body.map Step.symbol)
    (after : ρ) (fuel : Nat) : ∀ {stack}, Stands f.grammar a stack →
      ∀ th, .onward th ∉ resolve a r after fuel token stack := by
  induction fuel with
  | zero => exact fun _ _ => List.not_mem_nil
  | succ fuel ih =>
    intro stack stands th inside
    have means : r.meaning a (a.top stack) token = token := by
      rw [Reader.meaning, plain]
      split <;> rfl
    have resolution := resolution_of_mem inside
    rw [means] at resolution
    cases resolution with
    | reduce reduces other reduced later =>
      rcases stands.reduces mirrors closed fits reduces with isProduction | ⟨isWhole, -⟩
      · exact ih (stands.reduce isProduction reduced) th later
      · exact other (isWhole.trans mirrors.whole.symm)
    | shift shifts pushed =>
      obtain ⟨p, isProduction, inBody⟩ := stands.shifts mirrors closed fits shifts
      exact unread p isProduction inBody

/-- The place after a token that is not shifted is of no account. -/
theorem resolve_of_unshifted (mirrors : Mirrors f.grammar a f.automaton view)
    (closed : f.grammar.Closed) (fits : token < f.grammar.tokens) (plain : r.plain token = none)
    (unread : ∀ p ∈ f.grammar.allProductions, .token token ∉ p.body.map Step.symbol)
    (after after' : ρ) (fuel : Nat) (stands : Stands f.grammar a stack) :
    resolve a r after' fuel token stack = resolve a r after fuel token stack := by
  have moved := resolve_relocate a r (fun _ => after') after fuel token stack
  have fixed : ∀ progress ∈ resolve a r after fuel token stack,
      progress.relocate (fun _ => after') = progress := by
    intro progress inside
    cases progress with
    | whole tree => rfl
    | onward th =>
      exact absurd inside (onward_not_mem_resolve mirrors closed fits plain unread after fuel stands th)
  rw [moved, List.map_congr_left fixed, List.map_id']

end Unshifted

/-- A parse reads the same at other places if the live threads step alike there. -/
theorem run_relocate [BEq σ] (kept : Kept a r chain P) (lost : Lost a r chain P live)
    {P' : Nat → Thread σ ρ → Prop} (kept' : Kept a r chain P') (lost' : Lost a r chain P' live)
    (moves : ∀ i th, P i th → P' i (th.relocate move)) (stays : ∀ th, live (th.relocate move) = live th)
    (same : ∀ p q, r.same (move p) (move q) = r.same p q)
    (alike : ∀ i th, P i th → live th = true →
      (th.relocate move).step a r chain = (th.step a r chain).map (.relocate move)) (n : Nat) :
    ∀ {i threads}, (∀ th ∈ threads, P i th) →
      run a r chain n (threads.map (.relocate move)) = run a r chain n threads := by
  induction n with
  | zero => exact fun _ => rfl
  | succ n ih =>
    intro i threads all
    have moved : ∀ th ∈ threads.map (.relocate move), P' i th := by
      intro th inside
      obtain ⟨before, among, rfl⟩ := List.mem_map.1 inside
      exact moves i before (all before among)
    have fewer : ∀ th ∈ threads.filter live, P i th := fun th inside =>
      all th (List.mem_filter.1 inside).1
    have alive : (threads.map (.relocate move)).filter live = (threads.filter live).map (.relocate move) := by
      rw [List.filter_map]
      congr 2
      funext th
      exact stays th
    have results : ((threads.filter live).map (.relocate move)).flatMap (Thread.step a r chain) =
        ((threads.filter live).flatMap (Thread.step a r chain)).map (.relocate move) := by
      rw [List.flatMap_map, List.map_flatMap]
      apply List.flatMap_congr
      intro th inside
      exact alike i th (fewer th inside) (List.mem_filter.1 inside).2
    rw [← run_filter kept' lost' _ moved, ← run_filter kept lost _ all, alive, run_succ, run_succ,
      results, firstWhole_relocate, onward_relocate, distinct_relocate same, ih (kept.round fewer)]

end DefTally.Grammar
