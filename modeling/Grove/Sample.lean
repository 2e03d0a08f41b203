import Grove.Node.Builder

/-! # Sample nodes

Small trees with fixed seeds and times, so that their identifiers are always the same. Identities
are created at 1000, and the nodes of an author from 2000 on, one at each millisecond.
-/

namespace Grove.Sample

def aliceSeed : Bytes :=
  List.replicate 32 0xA1

def bobSeed : Bytes :=
  List.replicate 32 0xB0

def metadata : Twig :=
  Twig.empty.insert ⟨"fixture", 1⟩ (Utf8.encode "true")

def author (seed : Bytes) (name : String) : Except BuildError (Node × Author) := do
  let signer := Signer.ofSeed seed
  let node ← Node.newIdentity signer name metadata 1000
  return (node, ← Author.new ⟨node.id, signer.publicKey⟩ signer)

/-- One node of each kind, all by the same author. -/
structure Sapling where
  author : Author
  identity : Node
  community : Node
  conversation : Node
  reply : Node

def Sapling.now : UInt64 :=
  2003

def Sapling.nodes (f : Sapling) : List Node :=
  [f.identity, f.community, f.conversation, f.reply]

def Sapling.replyTo (f : Sapling) (parent : Node) (content : String) (created : UInt64) :
    Except BuildError Node :=
  f.author.newReply parent content .empty created

def sapling : Except BuildError Sapling := do
  let (identity, author) ← author aliceSeed "alice"
  let community ← author.newCommunity "general" metadata 2000
  let some place := community.asCommunity? | throw (.invalidParent community.kind)
  let conversation ← author.newConversation place "first post" .empty 2001
  let reply ← author.newReply conversation "a reply" metadata 2002
  return { author, identity, community, conversation, reply }

/-- An identity that has nothing to do with the sapling. -/
def stranger : Except BuildError Node := do
  return (← author bobSeed "bob").1

/-- A community with a chain of two replies that forks, and a reply below one end that is kept
back. -/
structure Scenario where
  nodes : List Node
  unstored : Node

def scenario : Except BuildError Scenario := do
  let f ← sapling
  let r1 ← f.replyTo f.community "r1" Sapling.now
  let r2 ← f.replyTo r1 "r2" (Sapling.now + 1)
  let r3a ← f.replyTo r2 "r3a" (Sapling.now + 2)
  let r3b ← f.replyTo r2 "r3b" (Sapling.now + 3)
  let unstored ← f.replyTo r3b "unstored" (Sapling.now + 4)
  return { nodes := [f.identity, f.community, r1, r2, r3a, r3b], unstored }

def communities (seed : Bytes) (name : String) : Except BuildError (List Node) := do
  let (identity, author) ← author seed name
  let one ← author.newCommunity "one" .empty 2000
  let two ← author.newCommunity "two" .empty 2001
  return [identity, one, two]

end Grove.Sample
