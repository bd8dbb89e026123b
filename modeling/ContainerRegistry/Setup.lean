/-
# Setting up a registry

A setup is what a registry is opened with: a backend and a layout on it. A draft
is a setup in the making, in which each part may be chosen again; the root may be
left to its default, the backend may not.

Key definitions: `Setup`, `Setup.registry`, `Draft`, `Draft.complete`.
Key theorems: `Draft.complete_eq_ok_iff`.
-/
import ContainerRegistry.Registry.Basic
import ContainerRegistry.Storage.Backend

namespace ContainerRegistry

/-- What a registry is opened with. -/
structure Setup where
  backend : Backend
  layout : Layout
  deriving DecidableEq, Repr

/-- The registry of a setup. -/
def Setup.registry (s : Setup) : Registry s.backend.storage.State s.backend.storage.Stream :=
  ⟨s.backend.storage.driver, s.layout⟩

/-- A setup in the making. -/
structure Draft where
  backend : Option Backend
  root : Option Path
  deriving DecidableEq, Repr

namespace Draft

/-- The draft in which nothing is chosen. -/
def empty : Draft :=
  ⟨none, none⟩

/-- Chooses the backend. -/
def withBackend (d : Draft) (backend : Backend) : Draft :=
  { d with backend := some backend }

/-- Chooses the root. -/
def withRoot (d : Draft) (root : Path) : Draft :=
  { d with root := some root }

/-- The setup that a draft describes. -/
def complete (d : Draft) : Except RegistryError Setup :=
  match d.backend with
  | some backend => .ok ⟨backend, ⟨d.root.getD Layout.defaultRoot⟩⟩
  | none => .error (.config "storage backend must be configured")

theorem complete_eq_ok_iff {d : Draft} {s : Setup} :
    d.complete = .ok s ↔
      d.backend = some s.backend ∧ s.layout.root = d.root.getD Layout.defaultRoot := by
  obtain ⟨backend, root⟩ := d
  obtain ⟨chosen, ⟨place⟩⟩ := s
  cases backend with
  | none => simp [complete]
  | some b => simp [complete, eq_comm]

end Draft

end ContainerRegistry
