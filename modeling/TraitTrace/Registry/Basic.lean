import TraitTrace.Event
import TraitTrace.Table

/-! The registry of component names. It maps the marker of a component to the consumer and provider
trait observed for it. A name is replaced only by one of higher confidence, so that a sure name
stays for good. -/

namespace TraitTrace

structure LearnedName where
  name : String
  confidence : Confidence
  deriving DecidableEq, Repr

structure Registry where
  consumers : Table String LearnedName
  providers : Table String LearnedName

/-- An observation: the trait of a marker's component in some role. -/
structure Lesson where
  role : Role
  marker : String
  name : String
  confidence : Confidence
  deriving DecidableEq, Repr

namespace Registry

def empty : Registry := ⟨[], []⟩

def names (r : Registry) : Role → Table String LearnedName
  | .consumer => r.consumers
  | .provider => r.providers

def get? (r : Registry) (role : Role) (marker : String) : Option LearnedName :=
  (r.names role).get? marker

def name? (r : Registry) (role : Role) (marker : String) : Option String :=
  (r.get? role marker).map LearnedName.name

def size (r : Registry) : Nat := r.consumers.length + r.providers.length

def accepts (r : Registry) (l : Lesson) : Bool :=
  match r.get? l.role l.marker with
  | some known => known.confidence.rank < l.confidence.rank
  | none => true

def learn (r : Registry) (l : Lesson) : Registry :=
  if r.accepts l then
    match l.role with
    | .consumer => { r with consumers := r.consumers.set l.marker ⟨l.name, l.confidence⟩ }
    | .provider => { r with providers := r.providers.set l.marker ⟨l.name, l.confidence⟩ }
  else r

def conflicts (r : Registry) (l : Lesson) : List Event :=
  match r.get? l.role l.marker with
  | some known =>
    if !r.accepts l && known.name != l.name then
      [.conflictIgnored l.role l.marker known.name l.name]
    else []
  | none => []

def learnAll (r : Registry) : List Lesson → Registry × List Event
  | [] => (r, [])
  | l :: ls =>
    let (r', events) := (r.learn l).learnAll ls
    (r', r.conflicts l ++ events)

/-- The surer of the best marker so far and a further one; of equals the earlier. -/
def surer (best : Option (String × LearnedName)) (entry : String × LearnedName) :
    Option (String × LearnedName) :=
  match best with
  | some b => if b.2.confidence.rank < entry.2.confidence.rank then some entry else best
  | none => some entry

def markerFor (r : Registry) (role : Role) (name : String) : Option String :=
  (((r.names role).filter fun e => e.2.name == name).foldl surer none).map Prod.fst

end Registry

end TraitTrace
