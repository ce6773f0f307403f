import ApiDoc.Main
import ApiDoc.Proofs.Access.Folded
import ApiDoc.Proofs.Access.Frame
import ApiDoc.Proofs.Access.Visibility
import ApiDoc.Proofs.Build.Links
import ApiDoc.Proofs.Build.Nesting
import ApiDoc.Proofs.Build.Resolution
import ApiDoc.Proofs.Comment.Java
import ApiDoc.Proofs.Dialect.File
import ApiDoc.Proofs.Doc.Layout
import ApiDoc.Proofs.Doc.Scope
import ApiDoc.Proofs.Doc.Sentence
import ApiDoc.Proofs.Doc.Spelling
import ApiDoc.Proofs.Groovy.DottedName
import ApiDoc.Proofs.Groovy.QuotedName
import ApiDoc.Proofs.Markup.Unterminated
import ApiDoc.Proofs.Source.Creation
import ApiDoc.Proofs.Syntax.Attachment
import ApiDoc.Proofs.Syntax.NestingLimit
import ApiDoc.Proofs.Syntax.Reclassified
import ApiDoc.Proofs.Syntax.ScriptMethod
import ApiDoc.Proofs.Syntax.TagTable
