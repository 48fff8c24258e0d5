import FlatSchema.Number.Double
import FlatSchema.Source
import FlatSchema.Text.Quoted

/-!
# Tokens

The lexical units of a schema.  A token keeps its spelling and its span, and
its class carries the value of a literal.  The last token of a sequence marks
the end of the file.
-/

namespace FlatSchema

/-- The reserved words that begin a directive or a declaration, and the two truth values. -/
inductive Keyword where
  | namespaceWord
  | includeWord
  | attributeWord
  | rootTypeWord
  | fileIdentifierWord
  | fileExtensionWord
  | enumWord
  | unionWord
  | structWord
  | tableWord
  | serviceWord
  | trueWord
  | falseWord
deriving DecidableEq, Inhabited, Repr

namespace Keyword

def all : List Keyword :=
  [.namespaceWord, .includeWord, .attributeWord, .rootTypeWord, .fileIdentifierWord,
    .fileExtensionWord, .enumWord, .unionWord, .structWord, .tableWord, .serviceWord, .trueWord,
    .falseWord]

def spelling : Keyword → String
  | .namespaceWord => "namespace"
  | .includeWord => "include"
  | .attributeWord => "attribute"
  | .rootTypeWord => "root_type"
  | .fileIdentifierWord => "file_identifier"
  | .fileExtensionWord => "file_extension"
  | .enumWord => "enum"
  | .unionWord => "union"
  | .structWord => "struct"
  | .tableWord => "table"
  | .serviceWord => "rpc_service"
  | .trueWord => "true"
  | .falseWord => "false"

def ofSpelling? (spelling : String) : Option Keyword :=
  all.find? fun kw => kw.spelling == spelling

def startsItem : Keyword → Bool
  | .trueWord | .falseWord => false
  | _ => true

end Keyword

inductive TokenClass where
  | ident
  | keyword (keyword : Keyword)
  | int (v : Nat)
  | float (v : Double)
  | string (v : Text)
  | punct (mark : Char)
  | doc
  | eof
deriving DecidableEq, Inhabited, Repr

structure Token where
  kind : TokenClass
  text : String
  span : Span
deriving DecidableEq, Inhabited, Repr

namespace Token

def isEof (tok : Token) : Bool :=
  tok.kind = .eof

def isPunct (tok : Token) (mark : Char) : Bool :=
  tok.kind = .punct mark

def describe (tok : Token) : String :=
  match tok.kind with
  | .eof => "end of file"
  | .string v => "string " ++ Quoted.quote v
  | .doc => "doc comment"
  | _ => "\"" ++ tok.text ++ "\""

end Token

def punctuation : List Char :=
  ['{', '}', '(', ')', '[', ']', ';', ':', ',', '=', '.', '-', '+']

end FlatSchema
