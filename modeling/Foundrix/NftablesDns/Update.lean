import Mathlib.Data.List.Sort
import Foundrix.Effect.Prog
import Foundrix.Text.Str

/-!
# Updating the dynamic rules

`elements_hash`, `find_drop_handle_and_old_sets` and `nft_update` of
`services/nftables-dns-update.py`. A listed rule is its handle and its text as `json.dumps`
writes it; a batch is the list of its statements.

* `elementsHash`: the hash in the names of the sets.
* `Found.see`, `findDropHandleAndOldSets`: what a listing of the chain tells.
* `batch`, `updateProto`, `nftUpdate`: the update.
-/

namespace Foundrix.NftablesDns

open Effect Text

inductive Proto where
  | tcp
  | udp
deriving DecidableEq, Repr

inductive Family where
  | v4
  | v6
deriving DecidableEq, Repr

def Proto.word : Proto → String
  | .tcp => "tcp"
  | .udp => "udp"

def Family.word : Family → String
  | .v4 => "ipv4"
  | .v6 => "ipv6"

/-- The (address, port) pairs of a protocol and a family. -/
abbrev Elements := Proto → Family → List (String × Nat)

/-! ## The hash -/

/-- The order of Python on pairs. -/
def pairLE (a b : String × Nat) : Bool := a.1 < b.1 || (a.1 == b.1 && a.2 ≤ b.2)

def dumpsPair (e : String × Nat) : String := "[\"" ++ e.1 ++ "\", " ++ toString e.2 ++ "]"

def dumpsPairs (es : List (String × Nat)) : String :=
  "[" ++ Text.join ", " ((es.insertionSort fun a b => pairLE a b).map dumpsPair) ++ "]"

/-- The keys of `elements`, sorted. -/
def elementKeys : List (String × Proto × Family) :=
  [("tcp_v4", .tcp, .v4), ("tcp_v6", .tcp, .v6), ("udp_v4", .udp, .v4), ("udp_v6", .udp, .v6)]

/-- The text that is hashed. -/
def hashedData (elements : Elements) : String :=
  "\x7b" ++ Text.join ", " ((elementKeys.filter fun k => !(elements k.2.1 k.2.2).isEmpty).map
    fun k => "\"" ++ k.1 ++ "\": " ++ dumpsPairs (elements k.2.1 k.2.2)) ++ "\x7d"

/-- `elements_hash`, where `sha256` gives the hex digest of a text. -/
def elementsHash (sha256 : String → String) (elements : Elements) : String :=
  String.ofList ((sha256 (hashedData elements)).toList.take 8)

/-! ## The listing of the chain -/

/-- How the names of the dynamic sets of a protocol begin. -/
def setPrefix (proto : Proto) : String := "allowed_dynamic_" ++ proto.word ++ "_"

def setName (proto : Proto) (family : Family) (h : String) : String :=
  setPrefix proto ++ family.word ++ "_" ++ h

/-- An item of the listing of a chain. -/
inductive Listing where
  | rule (handle : Nat) (rule_json : String)
  /-- The chain itself, or the meta information. -/
  | other
deriving DecidableEq, Repr

structure Found where
  drop_handle : Option Nat := none
  old_handles : List Nat := []
  old_sets : List String := []
deriving DecidableEq, Repr

/-- Whether the text of a rule is taken for that of the drop rule. -/
def isDropText (rule_json : String) : Bool :=
  Text.contains rule_json "\"drop\"" && Text.contains rule_json "\"oifname\""

/-- The loop over the listing. -/
def Found.see (proto : Proto) (found : Found) : Listing → Found
  | .other => found
  | .rule handle rule_json =>
    let found := if isDropText rule_json then { found with drop_handle := some handle } else found
    if Text.contains rule_json (setPrefix proto) then
      { found with
        old_handles := found.old_handles ++ [handle]
        old_sets := found.old_sets ++
          (Text.split rule_json '"').filter fun word => Text.startsWith word (setPrefix proto) }
    else found

def scan (proto : Proto) (items : List Listing) : Found := items.foldl (Found.see proto) {}

/-! ## The update -/

/-- The rule `oifname <iface> <ip or ip6> daddr . <proto> dport @<set> accept`. -/
structure Accept where
  iface : String
  family : Family
  proto : Proto
  set : String
deriving DecidableEq, Repr

/-- The statements of a batch; the table and the chain are those of the configuration. -/
inductive Stmt where
  | deleteRule (handle : Nat)
  | deleteSet (name : String)
  /-- `add set … { type ipv4_addr . inet_service ; flags interval ; }`, or of `ipv6_addr`. -/
  | addSet (name : String) (family : Family)
  | addElement (name : String) (elements : List (String × Nat))
  | insertRule (position : Nat) (rule : Accept)
deriving DecidableEq, Repr

structure Config where
  table : String
  chain : String
  interfaceMatch : String
deriving DecidableEq, Repr

/-- What the script asks of libnftables. A failure is answered with its text. -/
inductive Op : Type → Type
  | setHandleOutput (on : Bool) : Op Unit
  | listChain (table chain : String) : Op (Except String (List Listing))
  | cmd (batch : List Stmt) : Op (Except String Unit)

/-- The error that is printed where the listing fails, and what is found. -/
def findDropHandleAndOldSets (config : Config) (proto : Proto) :
    Prog Op Empty (Option String × Found) := do
  match ← .perform (.listChain config.table config.chain) with
  | .error error => return (some error, {})
  | .ok items => return (none, scan proto items)

/-- The elements of a set and the rule that accepts them are added where there are some. -/
def addElements (proto : Proto) (h : String) (elements : Elements) (family : Family) : List Stmt :=
  if (elements proto family).isEmpty then []
  else [.addElement (setName proto family h) (elements proto family)]

def insertRules (iface : String) (proto : Proto) (h : String) (elements : Elements)
    (position : Nat) (family : Family) : List Stmt :=
  if (elements proto family).isEmpty then []
  else [.insertRule position ⟨iface, family, proto, setName proto family h⟩]

def batch (iface : String) (proto : Proto) (h : String) (elements : Elements) (found : Found) :
    List Stmt :=
  found.old_handles.map .deleteRule ++ found.old_sets.dedup.map .deleteSet ++
  [.addSet (setName proto .v4 h) .v4, .addSet (setName proto .v6 h) .v6] ++
  (addElements proto h elements .v4 ++ addElements proto h elements .v6) ++
  match found.drop_handle with
  | none => []
  | some position =>
    insertRules iface proto h elements position .v4 ++
    insertRules iface proto h elements position .v6

/-- What is printed about a protocol: the error of the listing, where it failed, and how the
batch ended, which is sent in any case. -/
inductive Outcome where
  | skipped
  | failed (listing : Option String) (error : String)
  | applied (listing : Option String) (v4 v6 : Nat)
deriving DecidableEq, Repr

/-- A turn of the loop over the protocols. -/
def updateProto (config : Config) (h : String) (elements : Elements) (proto : Proto) :
    Prog Op Empty Outcome :=
  if (elements proto .v4).isEmpty && (elements proto .v6).isEmpty then .pure .skipped
  else do
    let (listing, found) ← findDropHandleAndOldSets config proto
    match ← .perform (.cmd (batch config.interfaceMatch proto h elements found)) with
    | .error error => return .failed listing error
    | .ok () => return .applied listing (elements proto .v4).length (elements proto .v6).length

def nftUpdate (sha256 : String → String) (config : Config) (elements : Elements) :
    Prog Op Empty (Proto → Outcome) := do
  let h := elementsHash sha256 elements
  .perform (.setHandleOutput true)
  let tcp ← updateProto config h elements .tcp
  let udp ← updateProto config h elements .udp
  return fun
    | .tcp => tcp
    | .udp => udp

end Foundrix.NftablesDns
