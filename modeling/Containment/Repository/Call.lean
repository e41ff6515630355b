/-
Module: Containment.Repository.Call
Purpose: Everything that a repository can be asked, as data, and the program behind each call.
Main exports: Call, Reply, Settings, Call.action, Call.program
-/
import Containment.Repository.Cursor
import Containment.Repository.Hierarchy
import Containment.Repository.Lifecycle
import Containment.Repository.Membership
import Containment.Repository.Recovery

namespace Containment

/-- A call to a repository. -/
inductive Call where
  | create (draft : Draft)
  | get (id : String)
  | contains (id : String)
  | delete (id : String)
  | updateMetadata (id : String) (update : MetadataUpdate)
  | addMember (container member : String)
  | addMembers (container : String) (members : List String)
  | removeMember (container member : String)
  | listMembers (container : String) (options : ListOptions)
  | countMembers (container : String) (type : Option MemberType)
  | drain (container : String) (options : ListOptions) (batchSize : Nat)
  | nextBatch (cursor : Cursor)
  | children (id : String)
  | parent (id : String)
  | path (id : String)
  | find (target : String)
  | move (id target : String)
  | rebuild (id : String)
  | rebuildAll
  | verify

/-- What a successful call answers. -/
inductive Reply where
  | done
  | container (container : Container)
  | containers (containers : List Container)
  | truth (value : Bool)
  | count (value : Nat)
  | member (member : Member)
  | page (page : MemberPage)
  | entries (entries : List IndexEntry)
  | batch (entries : List IndexEntry) (cursor : Cursor)
  | ids (ids : List String)
  | summary (summary : RebuildSummary)
  | report (report : ConsistencyReport)

/-- How a call ends. -/
abbrev Outcome := Except RepositoryError Reply

/-- What a repository is set up with: its bounds and its rule for the kinds of members. -/
structure Settings where
  limits : Limits := {}
  classifier : Classifier := Classifier.byExtension

instance : Inhabited Settings := ⟨{}⟩

/-- What a call does. -/
def Call.action (settings : Settings) : Call → Action Reply
  | .create draft => do
    let container ← Repository.draw draft
    .container <$> Repository.create settings.limits container
  | .get id => .container <$> Repository.get id
  | .contains id => .truth <$> Repository.contains id
  | .delete id => do
    Repository.delete id
    pure .done
  | .updateMetadata id update => .container <$> Repository.updateMetadata id update
  | .addMember container member => .member <$> Repository.addMember settings.classifier container member
  | .addMembers container members =>
    .count <$> Repository.addMembers settings.classifier container members
  | .removeMember container member => .member <$> Repository.removeMember container member
  | .listMembers container options => .page <$> Repository.listMembers settings.limits container options
  | .countMembers container type => .count <$> Repository.countMembers container type
  | .drain container options batchSize =>
    .entries <$> Repository.drain (Cursor.start settings.limits container options batchSize)
  | .nextBatch cursor => (fun (entries, cursor) => .batch entries cursor) <$> Repository.nextBatch cursor
  | .children id => .containers <$> Repository.children id
  | .parent id => .container <$> Repository.parent id
  | .path id => .ids <$> Repository.path settings.limits id
  | .find target => .container <$> Repository.find target
  | .move id target => .container <$> Repository.move settings.limits id target
  | .rebuild id => .count <$> Repository.rebuild id
  | .rebuildAll => .summary <$> Repository.rebuildAll
  | .verify => .report <$> Repository.verify

/-- The program behind a call. -/
def Call.program (settings : Settings) (call : Call) : Program Outcome :=
  (call.action settings).run

end Containment
