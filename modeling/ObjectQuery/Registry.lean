import ObjectQuery.Mapping

/-!
# Registries

The mappings of all concrete classes of a catalog.

* `Registry.build`: builds them and adds the indexes declared by annotation.
* `Registry.find?`/`Registry.get`: the mapping of a class.
-/

namespace ObjectQuery

/-- Whether a text does not come after another in the order of code points. -/
def Text.notAfter (a b : String) : Bool := !(b < a)

/-- The mappings of the concrete classes of a catalog, by class name. -/
structure Registry where
  catalog : Catalog
  mappings : Dictionary String ClassMapping
  deriving Repr, Inhabited

namespace Registry

/-- The mapping of a class. -/
def find? (r : Registry) (className : String) : Option ClassMapping :=
  r.mappings.find? className

/-- The mapping of a class that must have one. -/
def get (r : Registry) (className : String) : Except CompileError ClassMapping :=
  match r.find? className with
  | some m => .ok m
  | none => .error (.metadataNotFound className)

/-- The names of the mapped classes in order. -/
def classNames (r : Registry) : List String :=
  (r.mappings.map (·.1)).mergeSort Text.notAfter

/-- The mappings of the concrete classes. Of two declarations of a class the later counts. -/
def mapClasses (c : Catalog) : Reported (Dictionary String ClassMapping) :=
  (c.entities.filter (!·.isAbstract)).foldlM
    (fun mappings e => do pure (mappings.insert e.name (← ClassMapping.build c e))) []

/-- Gives a class a mapping. -/
def setMapping (r : Registry) (className : String) (m : ClassMapping) : Registry :=
  { r with mappings := r.mappings.insert className m }

/-- Adds an annotation to a subclass, if the class is assignable to the annotated class and has the
properties of all annotations declared there. -/
def annotateSubclass (a : AnnotatedIndex) (declared : List AnnotatedIndex) (r : Registry)
    (className : String) : Reported Registry := do
  if ← r.catalog.checkAssignable a.className className then
    match r.find? className with
    | none => pure r
    | some m =>
      if ← m.hasIndexProperties declared then
        pure (r.setMapping className (← m.annotate a))
      else pure r
  else pure r

/-- Adds an annotation to the class that it names, or to the subclasses of that class. -/
def annotate (classNames : List String) (r : Registry) (a : AnnotatedIndex) : Reported Registry :=
  if a.subClasses then
    let declared := r.catalog.annotations.filter (·.className == a.className)
    classNames.foldlM (annotateSubclass a declared) r
  else
    match r.find? a.className with
    | some m => do pure (r.setMapping a.className (← m.annotate a))
    | none => do
      Reported.report [.annotationWithoutClass a.className]
      pure r

/-- The registry of a catalog. -/
def build (c : Catalog) : Reported Registry := do
  let start : Registry := { catalog := c, mappings := ← mapClasses c }
  c.annotations.foldlM (annotate start.classNames) start

end Registry

end ObjectQuery
