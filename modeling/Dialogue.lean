import Dialogue.Text.Basic
import Dialogue.Text.Blank
import Dialogue.Text.Digit
import Dialogue.Text.Integer
import Dialogue.Text.Word
import Dialogue.Text.Lower
import Dialogue.Text.Lines
import Dialogue.Text.PrintTable
import Dialogue.Table
import Dialogue.Json.Parser
import Dialogue.Json.Printer
import Dialogue.Json.Shown
import Dialogue.Log
import Dialogue.FileTree.Path
import Dialogue.Message.Token
import Dialogue.Message.Render
import Dialogue.Dump.Kind
import Dialogue.Script.Usage
import Dialogue.Encoding.Name
import Dialogue.FileTree.Basic
import Dialogue.FileTree.Folders
import Dialogue.FileTree.Replace
import Dialogue.FileTree.Glob
import Dialogue.Script.Index
import Dialogue.Script.Report
import Dialogue.Command.Schema
import Dialogue.Dispatch.Tracing
import Dialogue.Settings.PathValue
import Dialogue.Settings.Project
import Dialogue.Workspace.Basic
import Dialogue.Log.Console
import Dialogue.CommandLine.Output
import Dialogue.Main
import Dialogue.Proofs.SearchOrder
import Dialogue.Proofs.Blocks
import Dialogue.Proofs.DumpReading
import Dialogue.Proofs.Freshest
import Dialogue.Proofs.LabelPath
import Dialogue.Proofs.SearchBudget
import Dialogue.Proofs.Canonical
import Dialogue.Proofs.Arguments
import Dialogue.Proofs.Generations
import Dialogue.Proofs.WriterFaults
import Dialogue.Proofs.SearchFaults
import Dialogue.Proofs.Numbers
import Dialogue.Proofs.Legible
import Dialogue.Proofs.Definitions
import Dialogue.Proofs.Refreshing
import Dialogue.Proofs.Utf8
import Dialogue.Proofs.Strings
import Dialogue.Proofs.WrittenValues
import Dialogue.Proofs.Replacing
import Dialogue.Proofs.Names
import Dialogue.Proofs.SavedHints
import Dialogue.Proofs.OpenLists
import Dialogue.Proofs.Corpus
import Dialogue.Proofs.FileOrder
import Dialogue.Proofs.Mentions
import Dialogue.Proofs.Merging
import Dialogue.Proofs.Aliases
import Dialogue.Proofs.Swaps
import Dialogue.Proofs.WrittenArguments
import Dialogue.Proofs.GivenSnapshots
import Dialogue.Proofs.NameTables
import Dialogue.Proofs.ErasedLiterals
import Dialogue.Proofs.Keywords
import Dialogue.Proofs.ReadBack
import Dialogue.Proofs.TagPositions
import Dialogue.Proofs.FileCounts
import Dialogue.Proofs.AllOrNothing
import Dialogue.Proofs.FileEncodings
import Dialogue.Proofs.LineEnds
import Dialogue.Proofs.MadeHints
import Dialogue.Proofs.HandedLines
import Dialogue.Proofs.ScriptSearch
import Dialogue.Proofs.UnreadComments
