import LocatedHtml.Document.Rendering
import LocatedHtml.Forest.Copy

/-!
Documents that share a forest: the tree of a document is one of the forest, and its host is a node of
the tree of its container. An HTML document is written through copies of itself and of the inline
documents, made together so that the hosts of the copies are in the copied tree. The copies are filled,
stripped of injected elements and written; what was there before is only read.
-/

namespace LocatedHtml

/-- The number of a document in a store. -/
abbrev DocumentId := Nat

/-- What has been read from a stored document; a tree is given by the number of its top. -/
inductive StoredBody where
  | unknown
  | text
  | html (root : NodeId)
  deriving DecidableEq, Repr

/-- A document of a store. Its host is a node of the forest. -/
structure StoredDocument where
  url : String
  contents : Text
  body : StoredBody
  isInline : Bool := false
  embedding : Option Embedding := none
  host : Option NodeId := none
  deriving Repr

/-- A forest with the documents that refer to its nodes. A document is never taken out. -/
structure Store where
  forest : Forest := {}
  documents : List StoredDocument := []
  deriving Repr

namespace StoredDocument

/-- The top of the tree of an HTML document. -/
def root? (d : StoredDocument) : Option NodeId :=
  match d.body with
  | .html root => some root
  | _ => none

/-- The document with its tree; its host is given by its place in the tree around it. -/
def toDocument (d : StoredDocument) (f : Forest) : Document where
  url := d.url
  contents := d.contents
  body :=
    match d.body with
    | .unknown => .unknown
    | .text => .text
    | .html root => .html ((f.html? root).getD (.node ⟨.document, none⟩ []))
  isInline := d.isInline
  embedding := d.embedding
  host := d.host.bind fun host => (f.rootOf? host).map fun root => (NumberedTree.ids root).idxOf host

end StoredDocument

namespace Copying

/-- Copies the tree of a document. -/
def copyBody (c : Copying) : StoredBody → Copying × StoredBody
  | .html root =>
    let copied := c.copy root
    (copied.1, .html copied.2)
  | body => (c, body)

/-- Copies the host of a document, and so the tree around it. -/
def copyHost (c : Copying) : Option NodeId → Copying × Option NodeId
  | some host =>
    let copied := c.copy host
    (copied.1, some copied.2)
  | none => (c, none)

/-- Copies a document with the nodes it refers to, its tree first. -/
def copyDocument (c : Copying) (d : StoredDocument) : Copying × StoredDocument :=
  let body := c.copyBody d.body
  let host := body.1.copyHost d.host
  (host.1, { d with body := body.2, host := host.2 })

end Copying

/-- Copies of documents that are made together: the copies of trees, all documents, and for the documents
copied so far their numbers with those of their copies. -/
structure StoreCopying where
  nodes : Copying
  documents : List StoredDocument
  copied : List (DocumentId × DocumentId) := []
  deriving Repr

namespace StoreCopying

/-- A store of which nothing has been copied. -/
def start (s : Store) : StoreCopying := ⟨⟨s.forest, []⟩, s.documents, []⟩

/-- The store with the copies. -/
def store (c : StoreCopying) : Store := ⟨c.nodes.forest, c.documents⟩

/-- Copies a document and the nodes it refers to unless they have been copied, and gives the number of
the document's copy. -/
def copy (c : StoreCopying) (n : DocumentId) : StoreCopying × DocumentId :=
  match c.copied.lookup n with
  | some m => (c, m)
  | none =>
    match c.documents[n]? with
    | none => (c, n)
    | some d =>
      let copied := c.nodes.copyDocument d
      (⟨copied.1, c.documents ++ [copied.2], (n, c.documents.length) :: c.copied⟩, c.documents.length)

/-- Copies one document after another. -/
def copyAll (c : StoreCopying) : List DocumentId → StoreCopying × List DocumentId
  | [] => (c, [])
  | n :: rest =>
    let first := c.copy n
    let others := copyAll first.1 rest
    (others.1, first.2 :: others.2)

end StoreCopying

namespace Store

/-- Adds a document with the given host, its tree as a new one of the forest. -/
def add (s : Store) (d : Document) (host : Option NodeId) : Store :=
  let stored (body : StoredBody) : StoredDocument :=
    { url := d.url, contents := d.contents, body := body, isInline := d.isInline,
      embedding := d.embedding, host := host }
  match d.body with
  | .unknown => { s with documents := s.documents ++ [stored .unknown] }
  | .text => { s with documents := s.documents ++ [stored .text] }
  | .html tree => ⟨s.forest.plant tree, s.documents ++ [stored (.html s.forest.next)]⟩

/-- Takes the injected elements out of the tree of an HTML document and writes it; other documents are
left as they are. -/
def write (s : Store) (d : DocumentId) : Store × Text :=
  match (s.documents[d]?).bind (·.root?) with
  | some root =>
    let f := (s.forest.removeInjected root).1
    ({ s with forest := f }, ((f.html? root).map Tree.innerHtml).getD [])
  | none => (s, [])

/-- The text of a document without inline documents, on the given level if it is a text. An HTML document
is copied first. -/
def plainText (s : Store) (d : DocumentId) (indent : Nat) : Store × Except DocumentError Text :=
  match s.documents[d]? with
  | none => (s, .error .unsupported)
  | some doc =>
    match doc.body with
    | .unknown => (s, .error .unsupported)
    | .text => (s, .ok (reindent indent doc.contents))
    | .html _ =>
      let copied := (StoreCopying.start s).copy d
      let written := copied.1.store.write copied.2
      (written.1, .ok written.2)

/-- Puts the texts of inline documents into their hosts, one document after another, up to the first one
without a host. -/
def fillHosts (s : Store) : List DocumentId → Store × Except DocumentError Unit
  | [] => (s, .ok ())
  | d :: rest =>
    match s.documents[d]? with
    | none => (s, .error .unsupported)
    | some doc =>
      match doc.host with
      | none => (s, .error (.noHost (doc.toDocument s.forest).description))
      | some host =>
        match s.plainText d hostedLevel with
        | (s, .error e) => (s, .error e)
        | (s, .ok text) =>
          fillHosts { s with forest := s.forest.setText host (Document.hostedText text) } rest

/-- The text of a document with some inline documents, which matter for an HTML document only: their
copies are put into the hosts in its copy. -/
def render (s : Store) (d : DocumentId) (inlines : List DocumentId) (indent : Nat) :
    Store × Except DocumentError Text :=
  match (s.documents[d]?).bind (·.root?) with
  | some _ =>
    let self := (StoreCopying.start s).copy d
    let hosted := self.1.copyAll inlines
    match hosted.1.store.fillHosts hosted.2 with
    | (s, .error e) => (s, .error e)
    | (s, .ok ()) =>
      let written := s.write self.2
      (written.1, .ok written.2)
  | none => s.plainText d indent

end Store

end LocatedHtml
