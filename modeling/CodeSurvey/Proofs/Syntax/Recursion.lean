import CodeSurvey.Proofs.Syntax.Preorder

/-!
# A walk is the recursion down the tree

A walk keeps the sites still to be visited on a stack, from which a loop takes the next one turn after
turn. The recursion visits a site and then goes down from its children, from left to right, if the
visit says so. Both come to the same state and visit the same sites in the same order, whatever the
visits prune and on whatever they base it.

## Implementation notes

The stack of a loop has its top at the end, and children are put on it all at once and then turned
round in place. The stack of `walk` is the same one read from the top.
-/

namespace CodeSurvey.Site

section Recursion

variable {σ : Type} (visit : σ → Site → σ × Bool)

/-- Visits a site and then, if the visit says so, goes down from its children from left to right. -/
def descend (state : σ) (s : Site) : σ :=
  if (visit state s).2 then
    s.children.foldl (fun state b => descend state b.site) (visit state s).1
  else (visit state s).1
termination_by s.size
decreasing_by exact b.smaller

theorem walk_cons (s : Site) (stack : List Site) (state : σ) :
    walk visit (s :: stack) state =
      walk visit ((if (visit state s).2 then s.children.map (·.site) else []) ++ stack)
        (visit state s).1 := by
  rw [walk]
  by_cases hdescends : (visit state s).2 = true <;> simp [hdescends]

/-- A walk goes down from each site on its stack in turn. -/
theorem walk_eq_foldl (stack : List Site) (state : σ) :
    walk visit stack state = stack.foldl (descend visit) state := by
  fun_induction walk visit stack state with
  | case1 state => rfl
  | case2 s stack state state' hvisit ih =>
    calc walk visit (s.children.map (·.site) ++ stack) state'
        = (s.children.map (·.site) ++ stack).foldl (descend visit) state' := ih
      _ = stack.foldl (descend visit)
            (s.children.foldl (fun state b => descend visit state b.site) state') := by
        rw [List.foldl_append, List.foldl_map]
      _ = (s :: stack).foldl (descend visit) state := by
        rw [List.foldl_cons, descend, hvisit, if_pos rfl]
  | case3 s stack state state' descends hvisit hdescends ih =>
    rw [ih, List.foldl_cons, descend, hvisit, if_neg hdescends]

/-- The same visits, with a log of the sites visited. -/
def logged (state : σ × List Site) (s : Site) : (σ × List Site) × Bool :=
  (((visit state.1 s).1, state.2 ++ [s]), (visit state.1 s).2)

end Recursion

/-! ## The loop -/

/-- Where a loop stands: its stack, with the site to be visited next at the end, and its state. -/
structure Loop (σ : Type) where
  stack : List Site
  state : σ

namespace Loop

/-- Puts sites on a stack: they are all added at its end, and what was added is turned round. -/
def push (stack sites : List Site) : List Site :=
  (stack ++ sites).take stack.length ++ ((stack ++ sites).drop stack.length).reverse

theorem reverse_push (stack sites : List Site) :
    (push stack sites).reverse = sites ++ stack.reverse := by
  rw [push, List.take_left, List.drop_left, List.reverse_append, List.reverse_reverse]

theorem sizes_reverse (stack : List Site) : sizes stack.reverse = sizes stack := by
  induction stack with
  | nil => rfl
  | cons s stack ih =>
    rw [List.reverse_cons, sizes_append, ih, sizes, sizes, sizes]
    omega

variable {σ : Type} (visit : σ → Site → σ × Bool)

/-- One turn of the loop: the site at the end of the stack is taken off and visited, and its children
are put on the stack if the visit says so. -/
def turn (l : Loop σ) : Option (Site × Loop σ) :=
  l.stack.getLast?.map fun s =>
    let rest := l.stack.dropLast
    let stack := if (visit l.state s).2 then push rest (s.children.map (·.site)) else rest
    (s, ⟨stack, (visit l.state s).1⟩)

/-- A loop that runs until its stack is empty, with the sites that it visits on the way. -/
inductive Runs : Loop σ → List Site → σ → Prop
  | done (state : σ) : Runs ⟨[], state⟩ [] state
  | turn {l l' : Loop σ} {s : Site} {trail : List Site} {final : σ}
      (hturn : turn visit l = some (s, l')) (hrest : Runs l' trail final) :
      Runs l (s :: trail) final

variable {visit} {l l' : Loop σ} {s : Site}

/-- What a turn does, with the stack read from the top. -/
theorem turn_cases (h : turn visit l = some (s, l')) :
    ∃ rest, l.stack.reverse = s :: rest ∧ l'.state = (visit l.state s).1 ∧
      l'.stack.reverse =
        (if (visit l.state s).2 then s.children.map (·.site) else []) ++ rest := by
  obtain ⟨s', hlast, hnext⟩ := Option.map_eq_some_iff.mp h
  obtain ⟨rfl, rfl⟩ := Prod.mk.inj hnext
  obtain ⟨front, hfront⟩ := List.getLast?_eq_some_iff.mp hlast
  refine ⟨front.reverse, by simp [hfront], rfl, ?_⟩
  cases (visit l.state s').2 <;> simp [hfront, reverse_push]

/-- A turn leaves the walk over the stack as it is. -/
theorem walk_turn (h : turn visit l = some (s, l')) :
    walk visit l.stack.reverse l.state = walk visit l'.stack.reverse l'.state := by
  obtain ⟨rest, hstack, hstate, hstack'⟩ := turn_cases h
  rw [hstack, walk_cons, hstack', hstate]

/-- A turn leaves fewer nodes below the sites on the stack. -/
theorem sizes_turn (h : turn visit l = some (s, l')) : sizes l'.stack < sizes l.stack := by
  obtain ⟨rest, hstack, -, hstack'⟩ := turn_cases h
  have hchildren := sizes_children s
  rw [← sizes_reverse l.stack, ← sizes_reverse l'.stack, hstack, hstack', sizes_append, sizes]
  split
  · omega
  · rw [sizes]
    omega

/-- A log does not bear on the turns. -/
theorem turn_logged (h : turn visit l = some (s, l')) (log : List Site) :
    turn (logged visit) ⟨l.stack, (l.state, log)⟩ =
      some (s, ⟨l'.stack, (l'.state, log ++ [s])⟩) := by
  obtain ⟨s', hlast, hnext⟩ := Option.map_eq_some_iff.mp h
  obtain ⟨rfl, rfl⟩ := Prod.mk.inj hnext
  exact Option.map_eq_some_iff.mpr ⟨s', hlast, rfl⟩

theorem Runs.walk_logged {trail : List Site} {final : σ} (h : Runs visit l trail final)
    (log : List Site) :
    walk (logged visit) l.stack.reverse (l.state, log) = (final, log ++ trail) := by
  induction h generalizing log with
  | done state => rw [List.append_nil, List.reverse_nil, walk]
  | @turn l l' s trail final hturn hrest ih =>
    calc walk (logged visit) l.stack.reverse (l.state, log)
        = walk (logged visit) l'.stack.reverse (l'.state, log ++ [s]) :=
          walk_turn (turn_logged hturn log)
      _ = (final, log ++ [s] ++ trail) := ih (log ++ [s])
      _ = (final, log ++ s :: trail) := by rw [List.append_assoc, List.singleton_append]

/-- Every loop comes to an end, after at most as many turns as there are nodes below its stack. -/
theorem exists_runs (visit : σ → Site → σ × Bool) (l : Loop σ) :
    ∃ trail, Runs visit l trail (walk visit l.stack.reverse l.state) ∧
      trail.length ≤ sizes l.stack := by
  induction hn : sizes l.stack using Nat.strong_induction_on generalizing l with
  | _ n ih =>
    subst hn
    cases hturn : turn visit l with
    | none =>
      obtain ⟨stack, state⟩ := l
      obtain rfl : stack = [] := by simpa [turn] using hturn
      refine ⟨[], ?_, Nat.zero_le _⟩
      rw [List.reverse_nil, walk]
      exact .done state
    | some next =>
      obtain ⟨s, l'⟩ := next
      have hlt := sizes_turn hturn
      obtain ⟨trail, hruns, hlength⟩ := ih (sizes l'.stack) hlt l' rfl
      refine ⟨s :: trail, ?_, ?_⟩
      · rw [walk_turn hturn]
        exact .turn hturn hruns
      · rw [List.length_cons]
        omega

end Loop

/-- Whatever a visit makes of its state, and whatever it prunes, walking down from a site comes to the
same state as the recursion. The loop on the stack ends, after at most as many turns as the tree has
nodes, and it visits just the sites that the recursion visits, in the same order. -/
theorem walk_eq_descend {σ : Type} (visit : σ → Site → σ × Bool) (state : σ) (s : Site) :
    walk visit [s] state = descend visit state s ∧
      ∃ trail, Loop.Runs visit ⟨[s], state⟩ trail (descend visit state s) ∧
        descend (logged visit) (state, []) s = (descend visit state s, trail) ∧
        trail.length ≤ s.size := by
  have hwalk {τ : Type} (visit : τ → Site → τ × Bool) (state : τ) :
      walk visit [s] state = descend visit state s := walk_eq_foldl visit [s] state
  obtain ⟨trail, hruns, hlength⟩ := Loop.exists_runs visit ⟨[s], state⟩
  rw [List.reverse_singleton, hwalk] at hruns
  have hlogged := hruns.walk_logged []
  rw [List.reverse_singleton, hwalk] at hlogged
  exact ⟨hwalk visit state, trail, hruns, hlogged, hlength⟩

end CodeSurvey.Site
