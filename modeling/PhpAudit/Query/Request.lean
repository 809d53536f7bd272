import PhpAudit.Query.ClassOf

/-!
# Reads of the current request

Where an expression reads the HTTP request of the framework: through `request()`, a facade, a variable
of a request class, or the property `$this->request`.
-/

namespace PhpAudit

/-- Classes whose instances hold the input of a request; subclasses count as well. -/
def requestClasses : List String :=
  ["Illuminate\\Http\\Request", "Illuminate\\Foundation\\Http\\FormRequest"]

/-- Classes with static access to the current request. -/
def requestFacades : List String :=
  ["Illuminate\\Support\\Facades\\Request", "Illuminate\\Http\\Request", "Request"]

/-- Whether a class gives static access to the current request. -/
def isRequestFacade (name : String) : Bool :=
  requestFacades.any (ClassName.same · name)

namespace SourceFile

/-- Whether a node is `$this->request`. -/
def isThisRequest (f : SourceFile) (n : Node) : Bool :=
  n.kind = .propertyAccess &&
    (match f.child? n "object" with
      | some object => object.isVar "this"
      | none => false) &&
    n.value == some "request"

/-- The object that a method call or a property access is made on. -/
def memberTarget? (f : SourceFile) (n : Node) : Option Node :=
  match n.kind with
  | .methodCall | .propertyAccess => f.child? n "object"
  | _ => none

/-- Whether a chain of method calls passes through `$this->request`. -/
def passesThisRequest (f : SourceFile) (call : Node) : Bool :=
  match f.child? call "object" with
  | none => false
  | some object => (f.trail f.memberTarget? object).any f.isThisRequest

end SourceFile

namespace Context

/-- Whether a class is a request class or a subclass of one. -/
def isRequestClass (cx : Context) (name : String) : Bool :=
  requestClasses.any (cx.classes.isA name)

/-- Whether the head of a chain is the current request. -/
def isRequestValue (cx : Context) (head : Node) : Bool :=
  match head.kind with
  | .functionCall => cx.file.isNamed head "request"
  | .var => (cx.classOf? head).any cx.isRequestClass
  | .name | .qualifiedName =>
    (cx.classOf? head).any (fun c => isRequestFacade c || cx.isRequestClass c)
  | _ => false

/-- Whether an expression reads the current request. -/
def readsRequest (cx : Context) (n : Node) : Bool :=
  match n.kind with
  | .functionCall => cx.file.isNamed n "request"
  | .staticCall => (cx.staticClass? n).any (fun c => isRequestFacade c || cx.isRequestClass c)
  | .methodCall =>
    cx.file.passesThisRequest n || (cx.file.chainHead? n).any cx.isRequestValue
  | .propertyAccess =>
    cx.file.isThisRequest n ||
      (cx.file.child? n "object").any (fun o => o.kind = .var && cx.isRequestValue o)
  | _ => false

end Context

end PhpAudit
