import Mathlib

/-!
# Maps keyed by paths

A path map sends every path, a list over some alphabet, to an optional value.
Radix trees denote such maps through three combinators: `single` stores a
value at the end of the path, `prefixed` places a map behind a fixed segment,
and `branch` fans out on the next symbol.  The lemmas below say how a point
update moves through the combinators, which is how an insertion or deletion
that rewrites one root-to-leaf path changes the map a tree denotes, and how
the combinators regroup when a tree is rebalanced into canonical shape.
-/

set_option autoImplicit false

namespace PathMap

universe u v

/-- A map from paths over `α` to values in `β`. -/
abbrev PMap (α : Type u) (β : Type v) := List α → Option β

variable {α : Type u} {β : Type v}

/-- The map with no entry. -/
def empty : PMap α β := fun _ => none

/-- The value `value` at the empty path and nothing else. -/
def single (value : β) : PMap α β
  | [] => some value
  | _ :: _ => none

/-- Fan out on the first symbol of the path. -/
def branch (children : α → PMap α β) : PMap α β
  | [] => none
  | symbol :: rest => children symbol rest

@[simp] theorem empty_apply (path : List α) : (empty : PMap α β) path = none := rfl

@[simp] theorem single_nil (value : β) : single value ([] : List α) = some value := rfl

@[simp] theorem single_cons (value : β) (symbol : α) (rest : List α) :
    single value (symbol :: rest) = none := rfl

@[simp] theorem branch_nil (children : α → PMap α β) : branch children [] = none := rfl

@[simp] theorem branch_cons (children : α → PMap α β) (symbol : α) (rest : List α) :
    branch children (symbol :: rest) = children symbol rest := rfl

theorem branch_empty : branch (fun _ => (empty : PMap α β)) = empty := by
  funext path
  cases path <;> rfl

section Prefixed

variable [DecidableEq α]

/-- The map `m` placed behind the segment `segment`. -/
def prefixed : List α → PMap α β → PMap α β
  | [], m => m
  | symbol :: segment, m => branch fun next => if next = symbol then prefixed segment m else empty

@[simp] theorem prefixed_nil (m : PMap α β) : prefixed [] m = m := rfl

theorem prefixed_cons (symbol : α) (segment : List α) (m : PMap α β) :
    prefixed (symbol :: segment) m =
      branch fun next => if next = symbol then prefixed segment m else empty := rfl

theorem prefixed_append (first second : List α) (m : PMap α β) :
    prefixed (first ++ second) m = prefixed first (prefixed second m) := by
  induction first with
  | nil => rfl
  | cons symbol rest inductionHypothesis =>
      simp only [List.cons_append, prefixed_cons, inductionHypothesis]

@[simp] theorem prefixed_empty (segment : List α) : prefixed segment (empty : PMap α β) = empty := by
  induction segment with
  | nil => rfl
  | cons symbol rest inductionHypothesis =>
      rw [prefixed_cons, inductionHypothesis]
      simpa using branch_empty

theorem prefixed_apply_append (segment path : List α) (m : PMap α β) :
    prefixed segment m (segment ++ path) = m path := by
  induction segment with
  | nil => rfl
  | cons symbol rest inductionHypothesis =>
      simp [prefixed_cons, inductionHypothesis]

theorem prefixed_apply_off_path (segment path : List α) (m : PMap α β)
    (notPrefix : ¬ segment <+: path) : prefixed segment m path = none := by
  induction segment generalizing path with
  | nil => exact absurd (List.nil_prefix) notPrefix
  | cons symbol rest inductionHypothesis =>
      cases path with
      | nil => rfl
      | cons first others =>
          rw [prefixed_cons, branch_cons]
          by_cases same : first = symbol
          · subst same
            rw [if_pos rfl]
            exact inductionHypothesis others fun isPrefix =>
              notPrefix (List.cons_prefix_cons.mpr ⟨rfl, isPrefix⟩)
          · rw [if_neg same]
            rfl

theorem prefixed_singleton (symbol : α) (m : PMap α β) :
    prefixed [symbol] m = branch fun next => if next = symbol then m else empty := rfl

end Prefixed

/-! ## Point updates -/

section Update

variable [DecidableEq α]

theorem update_branch (children : α → PMap α β) (symbol : α) (rest : List α) (value : Option β) :
    Function.update (branch children) (symbol :: rest) value =
      branch (Function.update children symbol
        (Function.update (children symbol) rest value)) := by
  funext path
  cases path with
  | nil => simp [Function.update]
  | cons first others =>
      by_cases same : first = symbol
      · subst same
        by_cases sameRest : others = rest
        · subst sameRest
          simp
        · simp [Function.update, sameRest]
      · simp [Function.update, same]

theorem update_prefixed (segment path : List α) (m : PMap α β) (value : Option β) :
    Function.update (prefixed segment m) (segment ++ path) value =
      prefixed segment (Function.update m path value) := by
  induction segment with
  | nil => rfl
  | cons symbol rest inductionHypothesis =>
      rw [List.cons_append, prefixed_cons, update_branch, prefixed_cons]
      congr 1
      funext next
      by_cases same : next = symbol
      · subst same
        simp [inductionHypothesis]
      · simp [Function.update, same]

theorem erase_prefixed_off_path (segment path : List α) (m : PMap α β)
    (notPrefix : ¬ segment <+: path) :
    Function.update (prefixed segment m) path none = prefixed segment m := by
  apply Function.update_eq_self_iff.mpr
  exact (prefixed_apply_off_path segment path m notPrefix).symm

theorem update_single (old new : β) : Function.update (single old) ([] : List α) (some new) = single new := by
  funext path
  cases path <;> simp [Function.update]

theorem erase_single (old : β) : Function.update (single old) ([] : List α) none = empty := by
  funext path
  cases path <;> simp [Function.update]

theorem update_empty (path : List α) (value : β) :
    Function.update (empty : PMap α β) path (some value) = prefixed path (single value) := by
  have atNil : Function.update (empty : PMap α β) [] (some value) = single value := by
    funext other
    cases other <;> simp [Function.update]
  have moved := update_prefixed path [] (empty : PMap α β) (some value)
  rw [prefixed_empty, List.append_nil, atNil] at moved
  exact moved

theorem update_prefixed_diverge (common segmentRest pathRest : List α) (segmentSymbol pathSymbol : α)
    (different : pathSymbol ≠ segmentSymbol) (m : PMap α β) (value : β) :
    Function.update (prefixed (common ++ segmentSymbol :: segmentRest) m)
        (common ++ pathSymbol :: pathRest) (some value) =
      prefixed common (branch fun next =>
        if next = segmentSymbol then prefixed segmentRest m
        else if next = pathSymbol then prefixed pathRest (single value) else empty) := by
  rw [prefixed_append, update_prefixed, prefixed_cons, update_branch]
  congr 2
  funext next
  by_cases atPath : next = pathSymbol
  · subst atPath
    simp [different, update_empty]
  · simp [Function.update, atPath]

end Update

/-! ## What a map determines

A radix tree in canonical shape puts no segment in front of a map that could
have taken the segment itself: below a segment sits a value or a real
branch.  Such a map forks at its root, and behind a segment it determines
both the segment and itself.  A branch determines its children, and a live
child is a symbol the branch has entries under. -/

section Determined

/-- The map has an entry. -/
def Live (m : PMap α β) : Prop := ∃ path, m path ≠ none

/-- The map has an entry whose path starts with `symbol`. -/
def LiveAt (m : PMap α β) (symbol : α) : Prop := ∃ rest, m (symbol :: rest) ≠ none

/-- The map holds a value at the empty path, or entries under two different
first symbols. -/
def Forks (m : PMap α β) : Prop := m [] ≠ none ∨ ∃ a b, a ≠ b ∧ LiveAt m a ∧ LiveAt m b

theorem not_live_empty : ¬ Live (empty : PMap α β) := fun ⟨_, held⟩ => held rfl

theorem live_single (value : β) : Live (single value : PMap α β) := ⟨[], by simp⟩

theorem Forks.live {m : PMap α β} (forks : Forks m) : Live m := by
  rcases forks with atRoot | ⟨a, _, _, ⟨rest, held⟩, _⟩
  · exact ⟨[], atRoot⟩
  · exact ⟨a :: rest, held⟩

theorem forks_single (value : β) : Forks (single value : PMap α β) := .inl (by simp)

theorem single_injective {value value' : β} (same : (single value : PMap α β) = single value') : value = value' :=
  Option.some.inj (congrFun same [])

theorem live_branch {children : α → PMap α β} {symbol : α} (live : Live (children symbol)) :
    Live (branch children) := by
  obtain ⟨rest, held⟩ := live
  exact ⟨symbol :: rest, held⟩

theorem forks_branch {children : α → PMap α β} {a b : α} (different : a ≠ b)
    (liveA : Live (children a)) (liveB : Live (children b)) : Forks (branch children) :=
  .inr ⟨a, b, different, liveA, liveB⟩

theorem branch_injective {children children' : α → PMap α β} (same : branch children = branch children') :
    children = children' := by
  funext symbol rest
  exact congrFun same (symbol :: rest)

variable [DecidableEq α]

theorem live_prefixed (segment : List α) {m : PMap α β} (live : Live m) : Live (prefixed segment m) := by
  obtain ⟨path, held⟩ := live
  exact ⟨segment ++ path, by rwa [prefixed_apply_append]⟩

theorem liveAt_prefixed_cons {symbol next : α} {segment : List α} {m : PMap α β}
    (live : LiveAt (prefixed (symbol :: segment) m) next) : next = symbol := by
  obtain ⟨rest, held⟩ := live
  by_contra apart
  rw [prefixed_cons, branch_cons, if_neg apart] at held
  exact held rfl

theorem not_forks_prefixed_cons (symbol : α) (segment : List α) (m : PMap α β) :
    ¬ Forks (prefixed (symbol :: segment) m) := by
  rintro (atRoot | ⟨a, b, different, liveA, liveB⟩)
  · exact atRoot rfl
  · exact different ((liveAt_prefixed_cons liveA).trans (liveAt_prefixed_cons liveB).symm)

theorem prefixed_eq_prefixed {m m' : PMap α β} (forks : Forks m) (forks' : Forks m') :
    ∀ {segment segment' : List α}, prefixed segment m = prefixed segment' m' → segment = segment' ∧ m = m'
  | [], [], same => ⟨rfl, same⟩
  | [], symbol :: _, same => by
      rw [prefixed_nil] at same
      exact absurd (same ▸ forks) (not_forks_prefixed_cons _ _ _)
  | symbol :: _, [], same => by
      rw [prefixed_nil] at same
      exact absurd (same ▸ forks') (not_forks_prefixed_cons _ _ _)
  | symbol :: segment, symbol' :: segment', same => by
      -- an entry of `m` shows that both segments start with the same symbol
      obtain ⟨path, held⟩ := forks.live
      have firstSame : symbol = symbol' := by
        have seen : LiveAt (prefixed (symbol' :: segment') m') symbol :=
          ⟨segment ++ path, by rwa [← same, ← List.cons_append, prefixed_apply_append]⟩
        exact liveAt_prefixed_cons seen
      subst firstSame
      have rest : prefixed segment m = prefixed segment' m' := by
        funext path
        have atPath := congrFun same (symbol :: path)
        simpa [prefixed_cons] using atPath
      obtain ⟨segmentSame, mapSame⟩ := prefixed_eq_prefixed forks forks' rest
      exact ⟨congrArg (symbol :: ·) segmentSame, mapSame⟩

end Determined

end PathMap
