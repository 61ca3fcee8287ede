import SudokuSolver.Support.Update
import SudokuSolver.Support.Candidates
import SudokuSolver.Support.Cascade
import SudokuSolver.Support.Deduction
import SudokuSolver.Support.Unwind
import SudokuSolver.Support.Walk
import SudokuSolver.Support.Worklist
import SudokuSolver.Support.Fillings
import SudokuSolver.Support.Loop
import SudokuSolver.Support.GenericFor
import SudokuSolver.Support.Clues
import SudokuSolver.Support.Search
import SudokuSolver.Support.Table
import SudokuSolver.Support.System
import SudokuSolver.Support.Correspondence
import SudokuSolver.Support.Lockstep
import SudokuSolver.Support.Ring
import SudokuSolver.Support.Backlog
import SudokuSolver.Support.Joined
import SudokuSolver.Support.Rounding
import SudokuSolver.Support.Failures
import SudokuSolver.Board
import SudokuSolver.Lines
import SudokuSolver.FSharp.Grid
import SudokuSolver.FSharp.Deduce
import SudokuSolver.FSharp.Solve
import SudokuSolver.FSharp.Line
import SudokuSolver.FSharp.Print
import SudokuSolver.Printed
import SudokuSolver.Lua.Square
import SudokuSolver.Lua.Grid
import SudokuSolver.Lua.Printers
import SudokuSolver.Lua.Deductions
import SudokuSolver.Lua.Solvers
import SudokuSolver.Lua.Parsers
import SudokuSolver.Lua.StateLine
import SudokuSolver.Lua.Iterators
import SudokuSolver.Agreement
import SudokuSolver.Python.Parse
import SudokuSolver.Python.Square
import SudokuSolver.Python.Grid
import SudokuSolver.Python.Print
import SudokuSolver.Python.Solutions
import SudokuSolver.Python.Complete
import SudokuSolver.InStep
import SudokuSolver.Python.StateLine
import SudokuSolver.Sudoku17
import SudokuSolver.Build.Projects
import SudokuSolver.Build.Only
import SudokuSolver.Build.Dependents
import SudokuSolver.Build.Linking
import SudokuSolver.Build.Completion
import SudokuSolver.Cpp.TextLoader
import SudokuSolver.Cpp.LuaWorker
import SudokuSolver.Cpp.BatchSolve
import SudokuSolver.Cpp.Sqlite
import SudokuSolver.Cpp.SqliteSolutions
import SudokuSolver.Cpp.SqliteLifetime
import SudokuSolver.Cpp.SqliteRows
import SudokuSolver.Cpp.Accounts
import SudokuSolver.Cpp.BatchOutcome
import SudokuSolver.Cpp.Console
import SudokuSolver.Cpp.ConsoleOutput
import SudokuSolver.Cpp.Bin2c
import SudokuSolver.Cpp.FltkGui
import SudokuSolver.Cpp.FltkGuiProgress
import SudokuSolver.Cpp.FltkGuiShutdown
import SudokuSolver.Cpp.AsyncSolutions
import SudokuSolver.Draco.Block
import SudokuSolver.Draco.Grid
import SudokuSolver.Draco.Caches
import SudokuSolver.Draco.Lines
import SudokuSolver.Draco.Removal
import SudokuSolver.Draco.Reached
import SudokuSolver.Draco.Refine
import SudokuSolver.Draco.GridList
import SudokuSolver.Draco.Represents
import SudokuSolver.Draco.Advance
import SudokuSolver.Draco.Runs
import SudokuSolver.Draco.Gadgets
import SudokuSolver.Draco.EventLoop
import SudokuSolver.Draco.Verdict
import SudokuSolver.Draco.Window
import SudokuSolver.Draco.Branches
import SudokuSolver.Draco.Flags
import SudokuSolver.Draco.Sound
import SudokuSolver.Draco.Restored
import SudokuSolver.Draco.WindowVerdict
import SudokuSolver.Draco.Program
import SudokuSolver.Draco.Statistics
