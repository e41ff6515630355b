/-
Module: Containment.Record.Basic
Purpose: The unit in which a container is stored. Its revision starts at 1 and grows by one with every
  change, so that a writer can tell whether what it read is still current.
Main exports: Record, Record.first, Record.next
-/
import Containment.Container.Basic

namespace Containment

/-- A stored container and how many times it has been written. -/
structure Record where
  revision : Nat
  container : Snapshot
deriving DecidableEq

namespace Record

/-- The identifier of the stored container. -/
def id (r : Record) : String := r.container.id

/-- The parent of the stored container. -/
def parentId (r : Record) : String := r.container.parentId

/-- The record of a container that was never stored. -/
def first (c : Container) : Record :=
  { revision := 1, container := c.toSnapshot }

/-- The record that replaces `r` once its container has changed. -/
def next (r : Record) (c : Container) : Record :=
  { revision := r.revision + 1, container := c.toSnapshot }

/-- The container at work again. -/
def toContainer (r : Record) : Except ContainerError Container :=
  Container.restore r.container

end Record

end Containment
