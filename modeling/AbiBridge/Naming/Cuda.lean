/-! # Words that CUDA C reserves

Keywords of C, the array support library, and the names of the device runtime and driver. CUDA
identifiers are compared as they are spelled. -/

namespace AbiBridge.Naming.Cuda

/-- Words of the C language and the sign helpers. -/
def language : List String :=
  ["isign", "fsign", "csign", "auto", "break", "case", "char", "const", "continue", "default", "do",
   "double", "else", "enum", "extern", "float", "for", "goto", "if", "inline", "int", "long",
   "register", "restrict", "return", "short", "signed", "sizeof", "static", "struct", "switch",
   "typedef", "union", "unsigned", "void", "volatile", "while", "_Alignas", "_Alignof", "_Atomic",
   "_Bool", "_Complex", "_Decimal128", "_Decimal32", "_Decimal64", "_Generic", "_Imaginary",
   "_Noreturn", "_Static_assert", "_Thread_local"]

/-- The array support library. -/
def arrays : List String :=
  ["t_ndarray", "array_create", "new_slice", "array_slicing", "alias_assign",
   "transpose_alias_assign", "array_fill", "t_slice", "GET_INDEX_EXP1", "GET_INDEX_EXP2",
   "GET_INDEX_EXP3", "GET_INDEX_EXP4", "GET_INDEX_EXP5", "GET_INDEX_EXP6", "GET_INDEX_EXP7",
   "GET_INDEX_EXP8", "GET_INDEX_EXP9", "GET_INDEX_EXP10", "GET_INDEX_EXP11", "GET_INDEX_EXP12",
   "GET_INDEX_EXP13", "GET_INDEX_EXP14", "GET_INDEX_EXP15", "NUM_ARGS_H1", "NUM_ARGS",
   "GET_INDEX_FUNC_H2", "GET_INDEX_FUNC", "GET_INDEX", "INDEX", "GET_ELEMENT", "free_array",
   "free_pointer", "get_index", "numpy_to_ndarray_strides", "numpy_to_ndarray_shape", "get_size",
   "order_f", "order_c", "array_copy_data"]

/-- Execution spaces and built-in variables. -/
def builtins : List String :=
  ["__global__", "__device__", "__host__", "__constant__", "__shared__", "__managed__", "threadIdx",
   "blockIdx", "blockDim", "gridDim", "warpSize"]

/-- The runtime interface of the device. -/
def runtimeApi : List String :=
  ["cudaMalloc", "cudaFree", "cudaMemcpy", "cudaMemset", "cudaMallocHost", "cudaFreeHost",
   "cudaMallocPitch", "cudaMallocArray", "cudaFreeArray", "cudaHostAlloc", "cudaHostRegister",
   "cudaHostUnregister", "cudaHostGetDevicePointer", "cudaHostGetFlags", "cudaDeviceSynchronize",
   "cudaDeviceReset", "cudaSetDevice", "cudaGetDeviceCount", "cudaGetDeviceProperties",
   "cudaChooseDevice", "cudaSetDeviceFlags", "cudaGetDevice", "cudaStreamCreate",
   "cudaStreamDestroy", "cudaStreamSynchronize", "cudaStreamWaitEvent", "cudaEventCreate",
   "cudaEventDestroy", "cudaEventRecord", "cudaEventSynchronize", "cudaEventElapsedTime"]

/-- The driver interface of the device. -/
def driverApi : List String :=
  ["cuInit", "cuDeviceGet", "cuDeviceGetCount", "cuDeviceGetName", "cuDeviceComputeCapability",
   "cuCtxCreate", "cuCtxDestroy", "cuCtxSynchronize", "cuModuleLoad", "cuModuleUnload",
   "cuModuleGetFunction", "cuModuleGetGlobal", "cuModuleGetTexRef", "cuMemAlloc", "cuMemFree",
   "cuMemcpyHtoD", "cuMemcpyDtoH", "cuMemcpyDtoD", "cuMemcpyHtoDAsync", "cuMemcpyDtoHAsync",
   "cuMemcpyDtoDAsync", "cuMemsetD8", "cuMemsetD16", "cuMemsetD32", "cuMemsetD2D8", "cuMemsetD2D16",
   "cuMemsetD2D32", "cuParamSetSize", "cuParamSeti", "cuParamSetf", "cuParamSetv", "cuLaunch",
   "cuLaunchGrid", "cuLaunchGridAsync", "cuEventCreate", "cuEventRecord", "cuEventQuery",
   "cuEventSynchronize", "cuEventDestroy", "cuEventElapsedTime", "cuStreamCreate", "cuStreamQuery",
   "cuStreamSynchronize", "cuStreamDestroy", "cuFuncSetBlockShape", "cuFuncSetSharedSize",
   "cuFuncGetAttribute", "cuTexRefCreate", "cuTexRefDestroy", "cuTexRefSetArray",
   "cuTexRefSetAddress", "cuTexRefSetAddress2D", "cuTexRefSetFormat", "cuTexRefSetAddressMode",
   "cuTexRefSetFilterMode", "cuTexRefSetFlags", "cuTexRefGetAddress", "cuTexRefGetArray",
   "cuTexRefGetAddressMode", "cuTexRefGetFilterMode", "cuTexRefGetFormat", "cuTexRefGetFlags",
   "cuLaunchKernel", "cuOccupancyMaxActiveBlocksPerMultiprocessor",
   "cuOccupancyMaxPotentialBlockSize", "cuOccupancyMaxPotentialBlockSizeWithFlags"]

def keywords : List String := language ++ arrays ++ builtins ++ runtimeApi ++ driverApi

end AbiBridge.Naming.Cuda
