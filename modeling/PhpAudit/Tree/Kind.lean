/-!
# Kinds of syntax nodes

The grammar has many node types; the analyses tell apart the ones that matter to them and lump the
rest together as `other`.
-/

namespace PhpAudit

/-- What a node of the syntax tree is, as far as the analyses care. -/
inductive Kind
  | program
  | namespaceDecl
  | useDecl
  | useClause
  | classDecl
  | interfaceDecl
  | traitDecl
  | enumDecl
  | baseClause
  | interfaceClause
  | method
  | function
  | closure
  | arrowFunction
  | parameters
  | parameter
  | attrList
  | attr
  | namedType
  | var
  | assignment
  | functionCall
  | methodCall
  | staticCall
  | creation
  | propertyAccess
  | staticPropertyAccess
  | classConstantAccess
  | subscript
  | arguments
  | argument
  | name
  | qualifiedName
  | relativeScope
  | stringLiteral
  | numberLiteral
  | booleanLiteral
  | nullLiteral
  | block
  | foreachLoop
  | returnStatement
  | comment
  | other
  deriving DecidableEq, Repr, Inhabited

namespace Kind

/-- The kind of a grammar node type. -/
def ofForm : String → Kind
  | "program" => program
  | "namespace_definition" => namespaceDecl
  | "namespace_use_declaration" => useDecl
  | "namespace_use_clause" | "namespace_use_group_clause" => useClause
  | "class_declaration" => classDecl
  | "interface_declaration" => interfaceDecl
  | "trait_declaration" => traitDecl
  | "enum_declaration" => enumDecl
  | "base_clause" => baseClause
  | "class_interface_clause" => interfaceClause
  | "method_declaration" => method
  | "function_definition" => function
  | "anonymous_function_creation_expression" | "anonymous_function" => closure
  | "arrow_function" => arrowFunction
  | "formal_parameters" => parameters
  | "simple_parameter" | "variadic_parameter" | "property_promotion_parameter" => parameter
  | "attribute_list" | "attribute_group" => attrList
  | "attribute" => attr
  | "named_type" => namedType
  | "variable_name" => var
  | "assignment_expression" | "reference_assignment_expression" | "by_ref_assignment_expression"
  | "augmented_assignment_expression" => assignment
  | "function_call_expression" => functionCall
  | "member_call_expression" | "nullsafe_member_call_expression" => methodCall
  | "scoped_call_expression" => staticCall
  | "object_creation_expression" => creation
  | "member_access_expression" | "nullsafe_member_access_expression" => propertyAccess
  | "scoped_property_access_expression" => staticPropertyAccess
  | "class_constant_access_expression" => classConstantAccess
  | "subscript_expression" => subscript
  | "arguments" => arguments
  | "argument" => argument
  | "name" => name
  | "qualified_name" => qualifiedName
  | "relative_scope" => relativeScope
  | "string" | "encapsed_string" | "heredoc" | "nowdoc" => stringLiteral
  | "integer" | "float" => numberLiteral
  | "boolean" => booleanLiteral
  | "null" => nullLiteral
  | "compound_statement" | "declaration_list" => block
  | "foreach_statement" => foreachLoop
  | "return_statement" => returnStatement
  | "comment" => comment
  | _ => other

/-- The name of a kind in exports and messages. -/
def label : Kind → String
  | program => "Program"
  | namespaceDecl => "Namespace"
  | useDecl => "UseDeclaration"
  | useClause => "UseClause"
  | classDecl => "Class"
  | interfaceDecl => "Interface"
  | traitDecl => "Trait"
  | enumDecl => "Enum"
  | baseClause => "BaseClause"
  | interfaceClause => "InterfaceClause"
  | method => "Method"
  | function => "Function"
  | closure => "Closure"
  | arrowFunction => "ArrowFunction"
  | parameters => "Parameters"
  | parameter => "Parameter"
  | attrList => "AttributeList"
  | attr => "Attribute"
  | namedType => "NamedType"
  | var => "Variable"
  | assignment => "Assignment"
  | functionCall => "FunctionCall"
  | methodCall => "MethodCall"
  | staticCall => "StaticCall"
  | creation => "New"
  | propertyAccess => "PropertyAccess"
  | staticPropertyAccess => "StaticPropertyAccess"
  | classConstantAccess => "ClassConstantAccess"
  | subscript => "Subscript"
  | arguments => "Arguments"
  | argument => "Argument"
  | name => "Name"
  | qualifiedName => "QualifiedName"
  | relativeScope => "RelativeScope"
  | stringLiteral => "StringLiteral"
  | numberLiteral => "NumberLiteral"
  | booleanLiteral => "BooleanLiteral"
  | nullLiteral => "NullLiteral"
  | block => "Block"
  | foreachLoop => "Foreach"
  | returnStatement => "Return"
  | comment => "Comment"
  | other => "Other"

/-- Every kind, in the order of its declaration. -/
def all : List Kind :=
  [program, namespaceDecl, useDecl, useClause, classDecl, interfaceDecl, traitDecl, enumDecl,
    baseClause, interfaceClause, method, function, closure, arrowFunction, parameters, parameter,
    attrList, attr, namedType, var, assignment, functionCall, methodCall, staticCall,
    creation, propertyAccess, staticPropertyAccess, classConstantAccess, subscript, arguments,
    argument, name, qualifiedName, relativeScope, stringLiteral, numberLiteral, booleanLiteral,
    nullLiteral, block, foreachLoop, returnStatement, comment, other]

/-- The kind with the given name in exports. -/
def ofLabel? (label : String) : Option Kind :=
  all.find? (fun k => k.label == label)

/-- Classes, interfaces, traits and enums. -/
def isClassLike : Kind → Bool
  | classDecl | interfaceDecl | traitDecl | enumDecl => true
  | _ => false

/-- Nodes that open a scope of variables of their own. -/
def isFunctionLike : Kind → Bool
  | method | function | closure | arrowFunction => true
  | _ => false

/-- Calls of functions, methods and static methods. -/
def isCall : Kind → Bool
  | functionCall | methodCall | staticCall => true
  | _ => false

/-- Constants written out in the source. -/
def isLiteral : Kind → Bool
  | stringLiteral | numberLiteral | booleanLiteral | nullLiteral => true
  | _ => false

/-- Plain and qualified names. -/
def isName : Kind → Bool
  | name | qualifiedName => true
  | _ => false

end Kind

end PhpAudit
