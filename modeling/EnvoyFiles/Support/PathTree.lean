import Mathlib

/-!
# Path resolution in a tree with symbolic links

A tree assigns a node to a location, the list of names that leads to it from the
root.  A path is a list of components, and resolving it follows the links it
passes, up to a limit.  A node below something that is not a directory cannot be
reached, so nothing is required of such assignments.
-/

namespace PathTree

/-- A component of a path: a name, or `..`. -/
inductive Component (α : Type*) where
  | parent
  | name (name : α)
  deriving DecidableEq

inductive Node (α φ δ : Type*) where
  | file (data : φ)
  | directory (data : δ)
  | symlink (absolute : Bool) (target : List (Component α))

/-- The nodes at their locations. -/
abbrev Tree (α φ δ : Type*) := List α → Option (Node α φ δ)

/-- Why a path leads nowhere. -/
inductive Fault where
  | missing
  | notDirectory
  | tooManyLinks
  deriving DecidableEq

/-- Where one component leads: to a location, or to the path of a link. -/
inductive Move (α : Type*) where
  | enter (location : List α)
  | follow (start : List α) (target : List (Component α))

variable {α φ δ : Type*}

def Node.isDirectory : Node α φ δ → Bool
  | .directory _ => true
  | _ => false

def Node.isSymlink : Node α φ δ → Bool
  | .symlink _ _ => true
  | _ => false

/-- Looks up one component below a location. -/
def move (tree : Tree α φ δ) (here : List α) (component : Component α) :
    Except Fault (Move α) :=
  if (tree here).any Node.isDirectory then
    match component with
    | .parent => .ok (.enter here.dropLast)
    | .name name =>
        match tree (here ++ [name]) with
        | none => .error .missing
        | some (.symlink absolute target) =>
            .ok (.follow (if absolute then [] else here) target)
        | some _ => .ok (.enter (here ++ [name]))
  else
    .error .notDirectory

/-- Walks down the components from a location; `resume` goes on behind a
link. -/
def walk (tree : Tree α φ δ)
    (resume : List α → List (Component α) → Except Fault (List α)) :
    List α → List (Component α) → Except Fault (List α)
  | here, [] => .ok here
  | here, component :: rest =>
      match move tree here component with
      | .error fault => .error fault
      | .ok (.enter location) => walk tree resume location rest
      | .ok (.follow start target) => resume start (target ++ rest)

/-- Resolves a path from a location, following at most `links` links. -/
def resolve (tree : Tree α φ δ) :
    ℕ → List α → List (Component α) → Except Fault (List α)
  | 0 => walk tree fun _ _ => .error .tooManyLinks
  | links + 1 => walk tree (resolve tree links)

/-- The last name of a path is a link: the path before it is resolved, the name
is not followed. -/
def lastIsSymlink (tree : Tree α φ δ) (links : ℕ) (here : List α)
    (before : List (Component α)) (last : Component α) : Bool :=
  match resolve tree links here before with
  | .error _ => false
  | .ok location =>
      match move tree location last with
      | .ok (.follow _ _) => true
      | _ => false

section Resolution

variable {tree : Tree α φ δ} {links : ℕ} {here location start : List α}
  {component : Component α} {target rest before after : List (Component α)}

@[simp] theorem resolve_nil : resolve tree links here [] = .ok here := by
  cases links <;> rfl

theorem resolve_cons_enter (hmove : move tree here component = .ok (.enter location)) :
    resolve tree links here (component :: rest) = resolve tree links location rest := by
  cases links <;> simp only [resolve, walk, hmove]

theorem resolve_cons_error {fault : Fault} (hmove : move tree here component = .error fault) :
    resolve tree links here (component :: rest) = .error fault := by
  cases links <;> simp only [resolve, walk, hmove]

/-- A link is followed if the limit allows one more. -/
theorem resolve_cons_follow (hmove : move tree here component = .ok (.follow start target)) :
    resolve tree links here (component :: rest) =
      match links with
      | 0 => .error .tooManyLinks
      | links + 1 => resolve tree links start (target ++ rest) := by
  cases links <;> simp only [resolve, walk, hmove]

/-- A name that is no link leads to the location below. -/
theorem move_name_enter {name : α} (hmove : move tree here (.name name) = .ok (.enter location)) :
    location = here ++ [name] := by
  unfold move at hmove
  split at hmove
  · dsimp only at hmove
    split at hmove
    · nomatch hmove
    · nomatch hmove
    · cases hmove
      rfl
  · nomatch hmove

/-- A path is resolved by resolving its first part and going on from there. -/
theorem resolve_append (h : resolve tree links here (before ++ after) = .ok location) :
    ∃ between remaining, resolve tree links here before = .ok between ∧
      resolve tree remaining between after = .ok location := by
  induction links using Nat.strong_induction_on generalizing here before with
  | _ links ihLinks =>
      induction before generalizing here with
      | nil => exact ⟨here, links, resolve_nil, h⟩
      | cons component rest ih =>
          rw [List.cons_append] at h
          cases hmove : move tree here component with
          | error fault =>
              rw [resolve_cons_error hmove] at h
              cases h
          | ok next =>
              cases next with
              | enter next =>
                  rw [resolve_cons_enter hmove] at h ⊢
                  exact ih h
              | follow start target =>
                  rw [resolve_cons_follow hmove] at h ⊢
                  cases links with
                  | zero => cases h
                  | succ links =>
                      -- the rest of the path is carried behind the link's own path
                      rw [← List.append_assoc] at h
                      exact ihLinks links (Nat.lt_succ_self links) h

/-- A path whose last name is no link leads below where the path before it
leads. -/
theorem resolve_concat {name : α}
    (hlast : lastIsSymlink tree links here before (.name name) = false)
    (h : resolve tree links here (before ++ [.name name]) = .ok location) :
    ∃ directory, resolve tree links here before = .ok directory ∧
      location = directory ++ [name] := by
  obtain ⟨directory, remaining, hbefore, hname⟩ := resolve_append h
  refine ⟨directory, hbefore, ?_⟩
  rw [lastIsSymlink] at hlast
  simp only [hbefore] at hlast
  cases hmove : move tree directory (.name name) with
  | error fault => rw [resolve_cons_error hmove] at hname; nomatch hname
  | ok next =>
      cases next with
      | enter next =>
          rw [resolve_cons_enter hmove, resolve_nil, Except.ok.injEq] at hname
          rw [← hname]
          exact move_name_enter hmove
      | follow start target =>
          simp only [hmove] at hlast
          nomatch hlast

end Resolution

/-! ## Trees without links -/

/-- No node is a link. -/
def LinkFree (tree : Tree α φ δ) : Prop :=
  ∀ location, (tree location).any Node.isSymlink = false

/-- The walk down a list of names. -/
def descend (tree : Tree α φ δ) : List α → List α → Except Fault (List α)
  | here, [] => .ok here
  | here, name :: rest =>
      if (tree here).any Node.isDirectory then
        if (tree (here ++ [name])).isSome then descend tree (here ++ [name]) rest
        else .error .missing
      else
        .error .notDirectory

section Descent

variable {tree other : Tree α φ δ} {here location : List α} {names more : List α}

/-- Without links, a path of names is walked down. -/
theorem resolve_names (hfree : LinkFree tree) (links : ℕ) (here names : List α) :
    resolve tree links here (names.map .name) = descend tree here names := by
  induction names generalizing here with
  | nil => exact resolve_nil
  | cons name rest ih =>
      rw [List.map_cons, descend]
      by_cases hdirectory : (tree here).any Node.isDirectory = true
      · rw [if_pos hdirectory]
        cases hnode : tree (here ++ [name]) with
        | none =>
            have hmove : move tree here (.name name) = .error .missing := by
              unfold move
              rw [if_pos hdirectory]
              dsimp only
              rw [hnode]
            exact resolve_cons_error hmove
        | some node =>
            have hmove : move tree here (.name name) = .ok (.enter (here ++ [name])) := by
              have hlink := hfree (here ++ [name])
              rw [hnode] at hlink
              unfold move
              rw [if_pos hdirectory]
              dsimp only
              rw [hnode]
              cases node with
              | symlink absolute target => nomatch hlink
              | file data => rfl
              | directory data => rfl
            rw [resolve_cons_enter hmove, ih]
            rfl
      · rw [if_neg hdirectory]
        have hmove : move tree here (.name name) = .error .notDirectory := by
          rw [move]
          rw [if_neg hdirectory]
        exact resolve_cons_error hmove

theorem descend_location (h : descend tree here names = .ok location) :
    location = here ++ names := by
  induction names generalizing here with
  | nil =>
      cases h
      exact (List.append_nil _).symm
  | cons name rest ih =>
      rw [descend] at h
      split at h
      · split at h
        · rw [ih h, List.append_assoc]
          rfl
        · nomatch h
      · nomatch h

/-- A walk goes on from where its first part leads. -/
theorem descend_append (h : descend tree here names = .ok location) :
    descend tree here (names ++ more) = descend tree location more := by
  induction names generalizing here with
  | nil =>
      cases h
      rfl
  | cons name rest ih =>
      rw [descend] at h
      rw [List.cons_append, descend]
      split at h
      · next hdirectory =>
          rw [if_pos hdirectory]
          split at h
          · next hsome =>
              rw [if_pos hsome]
              exact ih h
          · nomatch h
      · nomatch h

/-- A walk depends on the nodes along it only. -/
theorem descend_congr
    (h : ∀ below, below <+: names → tree (here ++ below) = other (here ++ below)) :
    descend tree here names = descend other here names := by
  induction names generalizing here with
  | nil => rfl
  | cons name rest ih =>
      have hhere : tree here = other here := by
        have hempty := h [] List.nil_prefix
        rwa [List.append_nil] at hempty
      have hnext : tree (here ++ [name]) = other (here ++ [name]) :=
        h [name] (List.cons_prefix_cons.mpr ⟨rfl, List.nil_prefix⟩)
      rw [descend, descend, hhere, hnext, ih]
      intro below hbelow
      rw [List.append_assoc]
      exact h (name :: below) (List.cons_prefix_cons.mpr ⟨rfl, hbelow⟩)

/-- A walk through directories arrives. -/
theorem descend_through
    (hdirectories : ∀ below name, below ++ [name] <+: names →
      (tree (here ++ below)).any Node.isDirectory = true ∧
        (tree (here ++ (below ++ [name]))).isSome) :
    descend tree here names = .ok (here ++ names) := by
  induction names generalizing here with
  | nil => rw [descend, List.append_nil]
  | cons name rest ih =>
      obtain ⟨hdirectory, hsome⟩ := hdirectories [] name
        (List.cons_prefix_cons.mpr ⟨rfl, List.nil_prefix⟩)
      rw [List.append_nil] at hdirectory
      rw [descend, if_pos hdirectory]
      have hsome' : (tree (here ++ [name])).isSome = true := hsome
      rw [if_pos hsome', ih, List.append_assoc]
      · rfl
      · intro below next hbelow
        rw [List.append_assoc, List.append_assoc]
        exact hdirectories (name :: below) next (List.cons_prefix_cons.mpr ⟨rfl, hbelow⟩)

end Descent

end PathTree
