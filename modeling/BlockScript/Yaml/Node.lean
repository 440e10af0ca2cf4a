import BlockScript.Yaml.Tag

/-! # Documents as trees

A document is a tree of scalars, sequences and mappings. A reference stands for the node that carries its anchor, which
may be a node around the reference itself. -/

namespace BlockScript.Yaml

inductive Node where
  | scalar (text : Bytes) (tag : Tag) (line : Nat)
  | sequence (items : List Node) (tag : Tag) (line : Nat)
  | mapping (entries : List (Node × Node)) (tag : Tag) (line : Nat)
  /-- Stands for the anchored node with the given number. -/
  | reference (name : Bytes) (target line : Nat)

namespace Node

def tag : Node → Tag
  | scalar _ tag _ | sequence _ tag _ | mapping _ tag _ => tag
  | reference .. => .other []

def line : Node → Nat
  | scalar _ _ line | sequence _ _ line | mapping _ _ line | reference _ _ line => line

def text : Node → Bytes
  | scalar text _ _ | reference text _ _ => text
  | _ => []

inductive Shape where
  | scalar
  | sequence
  | mapping
  | reference
  deriving DecidableEq, Repr

def shape : Node → Shape
  | scalar .. => .scalar
  | sequence .. => .sequence
  | mapping .. => .mapping
  | reference .. => .reference

end Node

structure Document where
  root : Node
  anchored : List (Nat × Node)
  bound : Nat

def Document.get? (d : Document) (number : Nat) : Option Node := d.anchored.lookup number

end BlockScript.Yaml
