import Mathlib.Data.List.Lex
import Mathlib.Data.Prod.Lex
import Mathlib.Data.String.Basic
import LakeKv.FiniteMap

namespace LakeKv

/-- Flat content hash of a block (`Vec<u8>`). -/
abbrev Flat := List UInt8

instance byteOrder : LinearOrder UInt8 := LinearOrder.lift' UInt8.toNat fun _ _ => UInt8.toNat_inj.mp

inductive Tier
  | unspecified
  | l0
  | l1
  | l2
  | l3
  deriving DecidableEq, Repr

def Tier.toWire : Tier → Int
  | unspecified => 0
  | l0 => 1
  | l1 => 2
  | l2 => 3
  | l3 => 4

def poolTarget : Int := 1

def poolDraft : Int := 2

structure KvBlockId where
  modelId : String
  blockHash : Flat
  poolKind : Int
  scope : String
  revision : String
  deriving DecidableEq, Repr

structure Location where
  tier : Int
  nodeId : String
  segmentId : Nat
  offset : Nat
  deriving DecidableEq, Repr

structure BlockMeta where
  id : Option KvBlockId
  blockKind : Int
  locations : List Location
  l3Present : Bool
  refCount : Nat
  deriving DecidableEq, Repr

structure BlockSpec where
  blockTokens : Nat
  bytesPerBlock : Nat
  deriving DecidableEq, Repr

structure Quota where
  softBytes : Int
  hardBytes : Int
  borrowEnabled : Bool
  deriving DecidableEq, Repr

structure ModelDescriptor where
  modelId : String
  revision : String
  numLayers : Nat
  blockSpec : Option BlockSpec
  hashAlgo : Int
  quota : Option Quota
  deriving DecidableEq, Repr

structure BackpressureSignal where
  modelId : String
  revision : String
  usedBytes : Int
  softBytes : Int
  hardBytes : Int
  deficitBytes : Int
  reason : String
  deriving DecidableEq, Repr

inductive RefKind
  | unspecified
  | request
  | inFlight
  | writeback
  deriving DecidableEq, Repr

def RefKind.ofWire? (raw : Int) : Option RefKind :=
  if raw = 0 then some unspecified
  else if raw = 1 then some request
  else if raw = 2 then some inFlight
  else if raw = 3 then some writeback
  else none

def RefKind.toWire : RefKind → Int
  | unspecified => 0
  | request => 1
  | inFlight => 2
  | writeback => 3

def RefKind.asStrName : RefKind → String
  | unspecified => "REF_KIND_UNSPECIFIED"
  | request => "REQUEST"
  | inFlight => "IN_FLIGHT"
  | writeback => "WRITEBACK"

structure RefDelta where
  id : Option KvBlockId
  kind : Int
  delta : Int
  nodeId : String
  deriving DecidableEq, Repr

inductive ViewKind
  | registered
  | invalidated
  | moved
  deriving DecidableEq, Repr

structure ViewEvent where
  kind : ViewKind
  id : Option KvBlockId
  locations : List Location
  l3Present : Bool
  blockKind : Int
  deriving DecidableEq, Repr

structure ViewUpdate where
  seq : Nat
  events : List ViewEvent
  deriving DecidableEq, Repr

structure OrphanReport where
  nodeId : String
  ids : List KvBlockId
  markedAtMs : Nat
  deriving DecidableEq, Repr

structure ReconcileOrphansRequest where
  reports : List OrphanReport
  deadNodeId : String
  orphanTtlMs : Nat
  gcModelId : String
  gcRevision : String
  gcPoolKind : Int
  gcColdLimit : Nat
  deriving DecidableEq, Repr

structure CheckpointBlock where
  blockMeta : Option BlockMeta
  prefixChain : List Flat
  deriving DecidableEq, Repr

structure CheckpointSnapshot where
  seq : Nat
  models : List ModelDescriptor
  blocks : List CheckpointBlock
  deriving DecidableEq, Repr

structure ReusableBlock where
  id : Option KvBlockId
  blockMeta : Option BlockMeta
  localHit : Bool
  deriving DecidableEq, Repr

/-- How a fallible call ends badly: an error it returns, or an `expect` that fails. -/
inductive Fault
  | err (text : String)
  | panicked (text : String)
  deriving DecidableEq, Repr

end LakeKv
